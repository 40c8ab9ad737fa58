import Marks.Preview

/-! # The preview's worker holds the text the main thread thinks it holds

A delta is computed against the text the main thread believes the worker has. The belief is a generation, and
an instance of that generation holds the text or was reset, which the length check then notices. At most one
request is unanswered, so nothing overtakes it. -/

namespace Marks

open List

/-! ## Logs -/

def lastSpawned : List PreviewLog → Option Nat
  | [] => none
  | .spawned worker :: _ => some worker
  | _ :: log => lastSpawned log

def lastApplied : List PreviewLog → Option Nat
  | [] => none
  | .applied _ seq :: _ => some seq
  | _ :: log => lastApplied log

def Orderly : PreviewLog → List PreviewLog → Prop
  | .posted seq _, log => ∀ n text, .posted n text ∈ log → n < seq
  | .patched seq text, log => .posted seq text ∈ log
  | .applied worker seq, log => lastSpawned log = some worker ∧ ∀ w n, .applied w n ∈ log → n < seq
  | .painted seq, log => lastApplied log = some seq
  | _, _ => True

/-! ## The thread -/

def RenderRequest.seq? : RenderRequest → Option Nat
  | .render seq _ => some seq
  | .patch request => some request.seq
  | .reset => none

def RenderResponse.generation : RenderResponse → WorkerGeneration
  | .rendered _ generation _ => generation
  | .resync _ generation _ _ => generation

section
variable {M : Markdown}

def WorkerThread.fresh (M : Markdown) (id : Nat) (generation : WorkerGeneration) : WorkerThread M :=
  ⟨id, [], [⟨MarkdownWorker.start M generation, []⟩], []⟩

namespace WorkerThread
variable (thread : WorkerThread M)

def requests : List RenderRequest := thread.instances.flatMap (·.queue) ++ thread.inbox

def pending : List Nat := thread.outbox.map (·.seq) ++ thread.requests.filterMap RenderRequest.seq?

def modules : List (MarkdownWorker M) := thread.instances.map (·.worker)

def Holds (generation : WorkerGeneration) (text : JsString) : Prop :=
  ∀ worker ∈ thread.modules, worker.generation = generation → worker.lastText = text ∨ worker.lastText = []

end WorkerThread

/-- The delta takes `base` to `text`. -/
structure PatchRequest.Takes (patch : PatchRequest) (base text : JsString) : Prop where
  edits : applyTextEdits base patch.edits = some text
  baseChars : patch.baseChars = base.length
  chars : patch.chars = text.length

/-- What a thread holds and has to hold. Edits are relative to `basis`, unless a full text is queued. -/
structure Linked (log : List PreviewLog) (generations : WorkerGeneration) (inFlight : Option Nat)
    (believed : Option WorkerGeneration) (basis : Option JsString) (thread : WorkerThread M) : Prop where
  pending : thread.pending.Perm inFlight.toList
  distinct : (thread.modules.map (·.generation)).Nodup
  supplied : ∀ worker ∈ thread.modules, worker.generation < generations
  renders : ∀ seq text, .render seq text ∈ thread.requests → ∀ b ∈ basis, text = b
  patches : ∀ patch, .patch patch ∈ thread.requests → patch.generation < generations ∧
    ∃ base text, patch.Takes base text ∧ .posted patch.seq text ∈ log ∧
      thread.Holds patch.generation base ∧ ∀ b ∈ basis, text = b
  answered : ∀ response ∈ thread.outbox, response.generation < generations
  rendered : ∀ seq generation blocks, .rendered seq generation blocks ∈ thread.outbox →
    ∃ text, thread.Holds generation text ∧ ∀ b ∈ basis, text = b
  settled : inFlight = none → ∀ g ∈ believed, ∀ b ∈ basis, thread.Holds g b

/-- `basis` is the text the queued edits start from. -/
structure Based (main : PreviewRenderer) (basis : JsString) : Prop where
  full : ∀ text ∈ main.queuedFull, text = basis
  edits : ∀ queued ∈ main.queuedEdits, applyTextEdits basis queued.edits = some main.sourceText ∧
    queued.baseChars = basis.length ∧ queued.chars = main.sourceText.length
  unedited : main.queuedEdits = none → basis = main.sourceText

def PreviewRenderer.due (main : PreviewRenderer) (basis : JsString) : Option JsString :=
  if main.queuedFull.isSome then none else some basis

structure Ordered (system : PreviewSystem M) : Prop where
  chronicle : Transition.Chronicle Orderly system.log
  posted : ∀ seq text, .posted seq text ∈ system.log → seq ≤ system.main.seq
  applied : ∀ worker seq, .applied worker seq ∈ system.log → seq ≤ system.main.seq
  inFlight : ∀ seq ∈ system.main.inFlight, seq = system.main.seq ∧
    ∀ worker n, .applied worker n ∈ system.log → n < seq
  believed : ∀ g ∈ system.main.workerGeneration, g < system.generations
  spawned : ∀ thread ∈ system.supervisor.worker, lastSpawned system.log = some thread.id
  running : system.supervisor.worker.isSome → system.supervisor.stopped = false ∧
    system.main.destroyed = false ∧ system.main.workerTerminal = false
  terminal : .terminal ∈ system.microtasks → system.supervisor.stopped = true ∧ system.supervisor.worker = none
  idle : ∀ remainder ∈ system.main.idle, lastApplied system.log = some remainder.seq

structure Synced (system : PreviewSystem M) : Prop extends Ordered system where
  based : ∃ basis, Based system.main basis ∧ ∀ thread ∈ system.supervisor.worker,
    Linked system.log system.generations system.main.inFlight system.main.workerGeneration
      (system.main.due basis) thread

/-! ## What the supervisor does -/

variable {main : PreviewRenderer}

namespace PreviewSystem
variable {browser : Browser} {system after : PreviewSystem M}

/-- The main thread may still act, and has a worker. -/
structure Running (system : PreviewSystem M) (thread : WorkerThread M) : Prop where
  worker : system.supervisor.worker = some thread
  stopped : system.supervisor.stopped = false
  destroyed : system.main.destroyed = false
  workerTerminal : system.main.workerTerminal = false

theorem Running.acts {thread : WorkerThread M} (h : system.Running thread) :
    ¬(system.main.destroyed = true ∨ system.main.workerTerminal = true) := by
  rw [h.destroyed, h.workerTerminal]
  rintro (hf | hf) <;> cases hf

structure Halted (browser : Browser) (system after : PreviewSystem M) : Prop where
  worker : after.supervisor.worker = none
  stopped : after.supervisor.stopped = true
  main : after.main = system.main.onWorkerTerminal browser.sanitize
  microtasks : after.microtasks = system.microtasks
  log : after.log = system.log
  generations : after.generations = system.generations

structure Restarted (system after : PreviewSystem M) : Prop where
  worker : after.supervisor.worker = some (.fresh M system.workers system.generations)
  stopped : after.supervisor.stopped = false
  main : after.main =
    { system.main with
      inFlight := none
      workerGeneration := none
      queuedEdits := none
      queuedFull := some system.main.sourceText }
  microtasks : after.microtasks = system.microtasks ++ [.recover]
  log : after.log = .spawned system.workers :: system.log
  generations : after.generations = system.generations + 1

structure Pushed (system after : PreviewSystem M) (thread : WorkerThread M) (message : RenderRequest) : Prop where
  worker : after.supervisor.worker = some { thread with inbox := thread.inbox ++ [message] }
  stopped : after.supervisor.stopped = false
  main : after.main = system.main
  microtasks : after.microtasks = system.microtasks
  log : after.log = system.log
  generations : after.generations = system.generations

theorem fail_cases (browser : Browser) {thread : WorkerThread M} (h : system.Running thread) :
    Halted browser system (system.fail browser thread.id) ∨ Restarted system (system.fail browser thread.id) := by
  obtain ⟨hw, hs, hd, ht⟩ := h
  unfold fail
  simp only [hw, hs, ne_eq, not_true_eq_false, or_self, if_false, Bool.false_eq_true]
  split
  · exact .inl ⟨rfl, rfl, rfl, rfl, rfl, rfl⟩
  cases hb : browser.unspawnable system.workers with
  | true =>
    simp only [spawn, terminate, hb, if_true]
    exact .inl ⟨rfl, rfl, rfl, rfl, rfl, rfl⟩
  | false =>
    simp only [spawn, terminate, hb, Bool.false_eq_true, if_false, onWorkerRecovery, hd, ht, or_self]
    exact .inr ⟨rfl, hs, by simp only [hd, ht], rfl, rfl, rfl⟩

theorem fail_other {worker : Nat} (h : system.supervisor.worker.map (·.id) ≠ some worker) :
    system.fail browser worker = system := by
  unfold fail
  split
  · rfl
  · rename_i thread hw
    rw [hw] at h
    rw [if_pos (Or.inr fun he => h (congrArg some he))]

theorem post_idle {message : RenderRequest} {expectResponse : Bool} (h : system.supervisor.worker = none) :
    system.post browser message expectResponse = (system, false) := by
  unfold post
  rw [h]

theorem post_cases (browser : Browser) {thread : WorkerThread M} (message : RenderRequest) (expectResponse : Bool)
    (h : system.Running thread) :
    (system.post browser message expectResponse).2 = true ∧
        Pushed system (system.post browser message expectResponse).1 thread message ∨
      (system.post browser message expectResponse).2 = false ∧
        (Halted browser system (system.post browser message expectResponse).1 ∨
          Restarted system (system.post browser message expectResponse).1) := by
  obtain ⟨hw, hs, hd, ht⟩ := h
  unfold post
  simp only [hw, hs, Bool.false_eq_true, if_false]
  split
  · refine .inr ⟨rfl, ?_⟩
    have hrun : Running { system with posts := system.posts + 1 } thread := ⟨hw, hs, hd, ht⟩
    rcases fail_cases browser hrun with h | h
    · exact .inl ⟨h.worker, h.stopped, h.main, h.microtasks, h.log, h.generations⟩
    · exact .inr ⟨h.worker, h.stopped, h.main, h.microtasks, h.log, h.generations⟩
  · exact .inl ⟨rfl, rfl, rfl, rfl, rfl, rfl, rfl⟩

theorem onWorkerTerminal_running {sanitize : JsString → JsString}
    (hd : main.destroyed = false) (ht : main.workerTerminal = false) :
    main.onWorkerTerminal sanitize =
      { main with
        workerTerminal := true
        inFlight := none
        queuedEdits := none
        queuedFull := none
        idle := none
        children := [⟨.terminalError, sanitize terminalHtml, 0, 0, main.sourceText.length, none⟩] } := by
  unfold PreviewRenderer.onWorkerTerminal
  simp only [hd, ht, Bool.false_eq_true, or_self, if_false]

end PreviewSystem

/-! ## A worker that fails -/

section
open PreviewSystem
variable {browser : Browser} {system after : PreviewSystem M}

theorem linked_fresh {log : List PreviewLog} {generations : WorkerGeneration} {basis : Option JsString} {id : Nat} :
    Linked log (generations + 1) none none basis (.fresh M id generations) where
  pending := List.Perm.refl _
  distinct := nodup_singleton _
  supplied i hi := by
    rw [mem_singleton.mp hi]
    exact Nat.lt_succ_self _
  renders _ _ h := by cases h
  patches _ h := by cases h
  answered _ h := by cases h
  rendered _ _ _ h := by cases h
  settled _ _ h := by cases h

theorem Ordered.halted (h : Ordered system) (hd : system.main.destroyed = false)
    (ht : system.main.workerTerminal = false) (hh : Halted browser system after) : Synced after := by
  have hm := hh.main.trans (onWorkerTerminal_running hd ht)
  refine ⟨⟨?_, ?_, ?_, ?_, ?_, ?_, ?_, ?_, ?_⟩, system.main.sourceText, ?_, ?_⟩
  · rw [hh.log]
    exact h.chronicle
  · rw [hh.log, hm]
    exact h.posted
  · rw [hh.log, hm]
    exact h.applied
  · rw [hm]
    intro _ hn
    cases hn
  · rw [hm, hh.generations]
    exact h.believed
  · rw [hh.worker]
    intro _ hn
    cases hn
  · rw [hh.worker]
    intro hn
    cases hn
  · exact fun _ => ⟨hh.stopped, hh.worker⟩
  · rw [hm]
    intro _ hn
    cases hn
  · rw [hm]
    exact ⟨fun _ hn => (by cases hn), fun _ hn => (by cases hn), fun _ => rfl⟩
  · rw [hh.worker]
    intro _ hn
    cases hn

theorem Ordered.restarted (h : Ordered system) (hd : system.main.destroyed = false)
    (ht : system.main.workerTerminal = false) (hs : .terminal ∉ system.microtasks) (hr : Restarted system after) :
    Synced after := by
  refine ⟨⟨?_, ?_, ?_, ?_, ?_, ?_, ?_, ?_, ?_⟩, system.main.sourceText, ?_, ?_⟩
  · rw [hr.log]
    exact ⟨trivial, h.chronicle⟩
  · rw [hr.log, hr.main]
    intro seq text hm
    rcases mem_cons.mp hm with hm | hm
    · cases hm
    · exact h.posted seq text hm
  · rw [hr.log, hr.main]
    intro worker seq hm
    rcases mem_cons.mp hm with hm | hm
    · cases hm
    · exact h.applied worker seq hm
  · rw [hr.main]
    intro _ hn
    cases hn
  · rw [hr.main]
    intro _ hn
    cases hn
  · rw [hr.worker, hr.log]
    intro thread ht
    cases ht
    rfl
  · rw [hr.main]
    exact fun _ => ⟨hr.stopped, hd, ht⟩
  · rw [hr.microtasks]
    intro hm
    rcases mem_append.mp hm with hm | hm
    · exact absurd hm hs
    · cases mem_singleton.mp hm
  · rw [hr.main, hr.log]
    exact h.idle
  · rw [hr.main]
    exact ⟨fun text ht => (Option.mem_some.mp ht).symm, fun _ hn => (by cases hn), fun _ => rfl⟩
  · rw [hr.worker, hr.log, hr.generations, hr.main]
    intro thread ht
    cases ht
    exact linked_fresh

theorem Ordered.notTerminal (h : Ordered system) {thread : WorkerThread M}
    (hw : system.supervisor.worker = some thread) : .terminal ∉ system.microtasks := by
  intro hm
  have := (h.terminal hm).2
  rw [hw] at this
  cases this

theorem Ordered.is_running (h : Ordered system) {thread : WorkerThread M}
    (hw : system.supervisor.worker = some thread) : Running system thread := by
  obtain ⟨hs, hd, ht⟩ := h.running (by rw [hw]; rfl)
  exact ⟨hw, hs, hd, ht⟩

theorem Ordered.failed (h : Ordered system) {thread : WorkerThread M} (hr : Running system thread)
    (hf : Halted browser system after ∨ Restarted system after) : Synced after := by
  rcases hf with hh | hr'
  · exact h.halted hr.destroyed hr.workerTerminal hh
  · exact h.restarted hr.destroyed hr.workerTerminal (h.notTerminal hr.worker) hr'

theorem Synced.fail (h : Synced system) {worker : Nat} : Synced (system.fail browser worker) := by
  by_cases hw : system.supervisor.worker.map (·.id) = some worker
  · obtain ⟨thread, ht, rfl⟩ := Option.map_eq_some_iff.mp hw
    exact h.toOrdered.failed (h.toOrdered.is_running ht) (fail_cases browser (h.toOrdered.is_running ht))
  · rw [fail_other hw]
    exact h

/-! ## A message for the worker -/

theorem requests_push {thread : WorkerThread M} {message : RenderRequest} :
    ({ thread with inbox := thread.inbox ++ [message] } : WorkerThread M).requests = thread.requests ++ [message] := by
  unfold WorkerThread.requests
  rw [append_assoc]

theorem Linked.push_reset {log : List PreviewLog} {generations : WorkerGeneration} {inFlight : Option Nat}
    {believed : Option WorkerGeneration} {basis : Option JsString} {thread : WorkerThread M}
    (h : Linked log generations inFlight believed basis thread) :
    Linked log generations inFlight believed basis { thread with inbox := thread.inbox ++ [.reset] } where
  pending := by
    have hp := h.pending
    unfold WorkerThread.pending at hp ⊢
    rw [requests_push, filterMap_append]
    simpa only [filterMap_cons, RenderRequest.seq?, filterMap_nil, append_nil] using hp
  distinct := h.distinct
  supplied := h.supplied
  renders seq text hm := by
    rw [requests_push] at hm
    rcases mem_append.mp hm with hm | hm
    · exact h.renders seq text hm
    · cases mem_singleton.mp hm
  patches patch hm := by
    rw [requests_push] at hm
    rcases mem_append.mp hm with hm | hm
    · exact h.patches patch hm
    · cases mem_singleton.mp hm
  answered := h.answered
  rendered := h.rendered
  settled := h.settled

theorem Linked.quiet {log : List PreviewLog} {generations : WorkerGeneration} {believed : Option WorkerGeneration}
    {basis : Option JsString} {thread : WorkerThread M} (h : Linked log generations none believed basis thread) :
    thread.outbox = [] ∧ ∀ request ∈ thread.requests, request = .reset := by
  have hp := h.pending.eq_nil
  unfold WorkerThread.pending at hp
  obtain ⟨ho, hr⟩ := append_eq_nil_iff.mp hp
  refine ⟨map_eq_nil_iff.mp ho, fun request hm => ?_⟩
  have := filterMap_eq_nil_iff.mp hr request hm
  cases request with
  | reset => rfl
  | render seq text => cases this
  | patch patch => cases this

variable {sourceText : JsString}

theorem Linked.ask {log : List PreviewLog} {generations : WorkerGeneration} {believed : Option WorkerGeneration}
    {due basis : Option JsString} {thread : WorkerThread M} {message : RenderRequest} {seq : Nat}
    (h : Linked log generations none believed due thread) (hseq : message.seq? = some seq)
    (hrender : ∀ n text, message = .render n text → ∀ b ∈ basis, text = b)
    (hpatch : ∀ patch, message = .patch patch → patch.generation < generations ∧
      ∃ base, patch.Takes base sourceText ∧ patch.seq = seq ∧ thread.Holds patch.generation base ∧
        ∀ b ∈ basis, sourceText = b) :
    Linked (.posted seq sourceText :: log) generations (some seq) believed basis
      { thread with inbox := thread.inbox ++ [message] } where
  pending := by
    obtain ⟨ho, hr⟩ := h.quiet
    unfold WorkerThread.pending
    rw [requests_push, filterMap_append, filterMap_eq_nil_iff.mpr fun r hm => by rw [hr r hm]; rfl]
    simp only [ho, map_nil, nil_append, filterMap_cons, hseq, filterMap_nil, Option.toList]
    exact List.Perm.refl _
  distinct := h.distinct
  supplied := h.supplied
  renders n text hm := by
    rw [requests_push] at hm
    rcases mem_append.mp hm with hm | hm
    · cases h.quiet.2 _ hm
    · exact hrender n text (mem_singleton.mp hm).symm
  patches patch hm := by
    rw [requests_push] at hm
    rcases mem_append.mp hm with hm | hm
    · cases h.quiet.2 _ hm
    · obtain ⟨hg, base, ht, hs, hb⟩ := hpatch patch (mem_singleton.mp hm).symm
      exact ⟨hg, base, sourceText, ht, hs ▸ mem_cons_self, hb⟩
  answered _ hm := by
    rw [show ({ thread with inbox := thread.inbox ++ [message] } : WorkerThread M).outbox = [] from h.quiet.1] at hm
    cases hm
  rendered _ _ _ hm := by
    rw [show ({ thread with inbox := thread.inbox ++ [message] } : WorkerThread M).outbox = [] from h.quiet.1] at hm
    cases hm
  settled hn := by cases hn

/-! ## What the main thread posts -/

structure Attached (due : Option JsString) (system : PreviewSystem M) : Prop extends Ordered system where
  linked : ∀ thread ∈ system.supervisor.worker,
    Linked system.log system.generations system.main.inFlight system.main.workerGeneration due thread

theorem Linked.weaken {log : List PreviewLog} {generations : WorkerGeneration} {inFlight : Option Nat}
    {believed : Option WorkerGeneration} {basis : Option JsString} {thread : WorkerThread M}
    (h : Linked log generations inFlight believed basis thread) (generation : Option WorkerGeneration) :
    Linked log generations inFlight generation none thread where
  pending := h.pending
  distinct := h.distinct
  supplied := h.supplied
  renders _ _ _ _ hb := by cases hb
  patches patch hm := by
    obtain ⟨hg, base, text, ht, hp, hh, _⟩ := h.patches patch hm
    exact ⟨hg, base, text, ht, hp, hh, fun _ hb => by cases hb⟩
  answered := h.answered
  rendered seq g blocks hm := by
    obtain ⟨text, hh, _⟩ := h.rendered seq g blocks hm
    exact ⟨text, hh, fun _ hb => by cases hb⟩
  settled _ _ _ _ hb := by cases hb

theorem Ordered.with_main (h : Ordered system) (hseq : main.seq = system.main.seq)
    (hin : ∀ n ∈ main.inFlight, n ∈ system.main.inFlight) (hg : ∀ g ∈ main.workerGeneration, g < system.generations)
    (hd : main.destroyed = system.main.destroyed) (ht : main.workerTerminal = system.main.workerTerminal)
    (hi : ∀ remainder ∈ main.idle, lastApplied system.log = some remainder.seq) : Ordered { system with main } where
  chronicle := h.chronicle
  posted seq text hm := hseq ▸ h.posted seq text hm
  applied worker seq hm := hseq ▸ h.applied worker seq hm
  inFlight n hn := by
    obtain ⟨heq, ha⟩ := h.inFlight n (hin n hn)
    exact ⟨heq.trans hseq.symm, ha⟩
  believed := hg
  spawned := h.spawned
  running hw := by
    obtain ⟨hs, hd', ht'⟩ := h.running hw
    exact ⟨hs, hd.trans hd', ht.trans ht'⟩
  terminal := h.terminal
  idle := hi

theorem Ordered.pushed {thread : WorkerThread M} {message : RenderRequest} (h : Ordered system)
    (hr : Running system thread) (hp : Pushed system after thread message) : Ordered after where
  chronicle := hp.log ▸ h.chronicle
  posted := by
    rw [hp.log, hp.main]
    exact h.posted
  applied := by
    rw [hp.log, hp.main]
    exact h.applied
  inFlight := by
    rw [hp.log, hp.main]
    exact h.inFlight
  believed := by
    rw [hp.generations, hp.main]
    exact h.believed
  spawned := by
    rw [hp.log, hp.worker]
    intro pushed hm
    cases hm
    exact h.spawned thread hr.worker
  running _ := by
    rw [hp.main]
    exact ⟨hp.stopped, hr.destroyed, hr.workerTerminal⟩
  terminal hm := absurd (hp.microtasks ▸ hm) (h.notTerminal hr.worker)
  idle := by
    rw [hp.log, hp.main]
    exact h.idle

theorem Attached.post_reset (browser : Browser) {due : Option JsString} (expectResponse : Bool) (h : Attached due system)
    (hafter : after = (system.post browser .reset expectResponse).1) :
    after.main.sourceText = system.main.sourceText ∧
      (Attached due after ∧ after.main = system.main ∨ Synced after) := by
  cases hw : system.supervisor.worker with
  | none =>
    rw [post_idle hw] at hafter
    subst hafter
    exact ⟨rfl, .inl ⟨h, rfl⟩⟩
  | some thread =>
    have hr := h.toOrdered.is_running hw
    rcases post_cases browser .reset expectResponse hr with
      ⟨_, hp⟩ | ⟨_, hf⟩
    · rw [← hafter] at hp
      refine ⟨congrArg _ hp.main, .inl ⟨⟨h.toOrdered.pushed hr hp, ?_⟩, hp.main⟩⟩
      rw [hp.worker, hp.log, hp.generations, hp.main]
      intro pushed hm
      cases hm
      exact (h.linked thread hw).push_reset
    · rw [← hafter] at hf
      refine ⟨?_, .inr (h.toOrdered.failed hr hf)⟩
      rcases hf with hh | hr'
      · rw [hh.main, onWorkerTerminal_running hr.destroyed hr.workerTerminal]
      · rw [hr'.main]

theorem Synced.attached (h : Synced system) :
    ∃ basis, Based system.main basis ∧ Attached (system.main.due basis) system := by
  obtain ⟨basis, hb, hl⟩ := h.based
  exact ⟨basis, hb, h.toOrdered, hl⟩

theorem Attached.synced {basis : JsString} (h : Attached (system.main.due basis) system)
    (hb : Based system.main basis) : Synced system := ⟨h.toOrdered, basis, hb, h.linked⟩

theorem Synced.post_reset (h : Synced system) {expectResponse : Bool} :
    Synced (system.post browser .reset expectResponse).1 := by
  obtain ⟨basis, hb, ha⟩ := h.attached
  rcases (ha.post_reset browser expectResponse rfl).2 with ⟨ha', hm⟩ | hs
  · exact Attached.synced (hm ▸ ha') (hm ▸ hb)
  · exact hs

structure Asks (main next : PreviewRenderer) (request : RenderRequest) : Prop where
  seq : next.seq = main.seq + 1
  inFlight : next.inFlight = some next.seq
  request : request.seq? = some next.seq
  queuedFull : next.queuedFull = none
  sourceText : next.sourceText = main.sourceText
  workerGeneration : next.workerGeneration = main.workerGeneration
  destroyed : next.destroyed = main.destroyed
  workerTerminal : next.workerTerminal = main.workerTerminal
  idle : next.idle = main.idle
  children : next.children = main.children

variable {request : RenderRequest}

theorem nextRequest_asks {next : PreviewRenderer}
    (h : main.nextRequest = some (next, request)) : Asks main next request := by
  unfold PreviewRenderer.nextRequest at h
  split at h
  · cases h
    exact ⟨rfl, rfl, rfl, rfl, rfl, rfl, rfl, rfl, rfl, rfl⟩
  · rename_i hf _ _
    cases h
    exact ⟨rfl, rfl, rfl, hf, rfl, rfl, rfl, rfl, rfl, rfl⟩
  · cases h

theorem Based.nextRequest {next : PreviewRenderer} {basis : JsString}
    (h : Based main basis) (hn : main.nextRequest = some (next, request)) :
    ∃ basis', Based next basis' ∧ (∀ n text, request = .render n text → text = basis') ∧
      ∀ patch, request = .patch patch → main.queuedFull = none ∧ main.workerGeneration = some patch.generation ∧
        patch.Takes basis next.sourceText ∧ patch.seq = next.seq ∧ next.sourceText = basis' := by
  unfold PreviewRenderer.nextRequest at hn
  split at hn
  · rename_i text hf
    cases hn
    refine ⟨basis, ⟨fun _ ht => (by cases ht), h.edits, h.unedited⟩, fun n _ hr => ?_, fun _ hr => by cases hr⟩
    cases hr
    exact h.full text hf
  · rename_i queued generation hf hq hg
    cases hn
    obtain ⟨he, hb, hc⟩ := h.edits queued hq
    refine ⟨main.sourceText, ⟨fun text ht => ?_, fun _ ht => (by cases ht), fun _ => rfl⟩,
      fun _ _ hr => (by cases hr), fun patch hr => ?_⟩
    · rw [show main.queuedFull = none from hf] at ht
      cases ht
    · cases hr
      exact ⟨hf, hg, ⟨he, hb, hc⟩, rfl, rfl⟩
  · cases hn

theorem Synced.rebase (h : Synced system) : Synced { system with main := system.main.rebase } := by
  obtain ⟨basis, hb, ha⟩ := h.attached
  unfold PreviewRenderer.rebase
  split
  · refine ⟨h.toOrdered.with_main rfl (fun _ hn => hn) h.believed rfl rfl h.idle, system.main.sourceText,
      ⟨fun text ht => (Option.mem_some.mp ht).symm, fun _ hn => (by cases hn), fun _ => rfl⟩, fun thread ht => ?_⟩
    exact (ha.linked thread ht).weaken _
  · exact h

theorem pump_nothing (h : main.rebase.nextRequest = none) : main.rebase = main := by
  unfold PreviewRenderer.rebase at h ⊢
  split
  · rename_i hq
    rw [if_pos hq] at h
    cases h
  · rfl

theorem Ordered.asking {next : PreviewRenderer} (h : Ordered system)
    (ha : Asks system.main next request) : Ordered { system with main := next } where
  chronicle := h.chronicle
  posted seq text hm := by
    rw [ha.seq]
    exact Nat.le_succ_of_le (h.posted seq text hm)
  applied worker seq hm := by
    rw [ha.seq]
    exact Nat.le_succ_of_le (h.applied worker seq hm)
  inFlight n hn := by
    rw [ha.inFlight] at hn
    cases hn
    refine ⟨rfl, fun worker n hm => ?_⟩
    rw [ha.seq]
    exact Nat.lt_succ_of_le (h.applied worker n hm)
  believed := by
    rw [ha.workerGeneration]
    exact h.believed
  spawned := h.spawned
  running hw := by
    rw [ha.destroyed, ha.workerTerminal]
    exact h.running hw
  terminal := h.terminal
  idle := by
    rw [ha.idle]
    exact h.idle

theorem Ordered.logged (h : Ordered system) (entry : PreviewLog) (hchron : Orderly entry system.log)
    (hposted : ∀ seq text, entry = .posted seq text → seq ≤ system.main.seq)
    (happlied : ∀ worker seq, entry = .applied worker seq → seq ≤ system.main.seq ∧ system.main.inFlight = none)
    (hspawned : ∀ worker, entry ≠ .spawned worker)
    (hidle : ∀ remainder ∈ system.main.idle, lastApplied (entry :: system.log) = some remainder.seq) :
    Ordered { system with log := entry :: system.log } where
  chronicle := ⟨hchron, h.chronicle⟩
  posted seq text hm := by
    rcases mem_cons.mp hm with hm | hm
    · exact hposted seq text hm.symm
    · exact h.posted seq text hm
  applied worker seq hm := by
    rcases mem_cons.mp hm with hm | hm
    · exact (happlied worker seq hm.symm).1
    · exact h.applied worker seq hm
  inFlight n hn := by
    obtain ⟨heq, ha⟩ := h.inFlight n hn
    refine ⟨heq, fun worker seq hm => ?_⟩
    rcases mem_cons.mp hm with hm | hm
    · rw [(happlied worker seq hm.symm).2] at hn
      cases hn
    · exact ha worker seq hm
  believed := h.believed
  spawned thread ht := by
    have hs := h.spawned thread ht
    cases entry with
    | spawned worker => exact absurd rfl (hspawned worker)
    | posted _ _ => exact hs
    | patched _ _ => exact hs
    | omitted _ _ _ => exact hs
    | applied _ _ => exact hs
    | painted _ => exact hs
  running := h.running
  terminal := h.terminal
  idle := hidle

theorem Linked.asked {next : PreviewRenderer} {request : RenderRequest} {basis basis' : JsString}
    {thread : WorkerThread M}
    (h : Linked system.log system.generations none system.main.workerGeneration (system.main.due basis) thread)
    (hbelieved : ∀ g ∈ system.main.workerGeneration, g < system.generations)
    (ha : Asks system.main next request) (hrender : ∀ n text, request = .render n text → text = basis')
    (hpatch : ∀ patch, request = .patch patch → system.main.queuedFull = none ∧
      system.main.workerGeneration = some patch.generation ∧ patch.Takes basis next.sourceText ∧
      patch.seq = next.seq ∧ next.sourceText = basis') :
    Linked (.posted next.seq next.sourceText :: system.log) system.generations next.inFlight next.workerGeneration
      (next.due basis') { thread with inbox := thread.inbox ++ [request] } := by
  rw [ha.inFlight, ha.workerGeneration]
  refine h.ask ha.request (fun n text hr b hb => ?_) fun patch hp => ?_
  · simp only [PreviewRenderer.due, ha.queuedFull, Option.isSome_none, Bool.false_eq_true, if_false,
      Option.mem_some] at hb
    exact (hrender n text hr).trans hb
  obtain ⟨hf, hg, ht, hs, hb'⟩ := hpatch patch hp
  refine ⟨hbelieved _ hg, basis, ht, hs, ?_, fun b hb => ?_⟩
  · refine h.settled rfl _ hg basis ?_
    simp only [PreviewRenderer.due, hf, Option.isSome_none, Bool.false_eq_true, if_false, Option.mem_some]
  · simp only [PreviewRenderer.due, ha.queuedFull, Option.isSome_none, Bool.false_eq_true, if_false,
      Option.mem_some] at hb
    exact hb'.trans hb

theorem lastApplied_posted {seq : Nat} {text : JsString} {log : List PreviewLog} :
    lastApplied (.posted seq text :: log) = lastApplied log := rfl

theorem Ordered.posting {next : PreviewRenderer} {thread : WorkerThread M}
    (h : Ordered system) (ha : Asks system.main next request) (hr : Running { system with main := next } thread)
    (hp : Pushed { system with main := next } after thread request) :
    Ordered { after with log := .posted next.seq next.sourceText :: after.log } := by
  refine ((h.asking ha).pushed hr hp).logged _ ?_ ?_ ?_ ?_ ?_
  · intro n text hm
    rw [hp.log] at hm
    rw [ha.seq]
    exact Nat.lt_succ_of_le (h.posted n text hm)
  · rintro seq text ⟨⟩
    rw [hp.main]
  · rintro worker seq ⟨⟩
  · rintro worker ⟨⟩
  · simp only [lastApplied_posted, hp.main, hp.log]
    exact (h.asking ha).idle

theorem inFlight_failed {thread : WorkerThread M} (hr : Running system thread)
    (hf : Halted browser system after ∨ Restarted system after) : after.main.inFlight = none := by
  rcases hf with hh | hr'
  · rw [hh.main, onWorkerTerminal_running hr.destroyed hr.workerTerminal]
  · rw [hr'.main]

theorem Synced.pump (h : Synced system) : Synced (system.pump browser) := by
  unfold PreviewSystem.pump
  split
  · exact h
  rename_i hready
  simp only
  split
  · rename_i hnone
    rw [pump_nothing hnone]
    exact h
  rename_i next request hnext
  obtain ⟨basis, hb, ha⟩ := h.rebase.attached
  have hasks := nextRequest_asks hnext
  obtain ⟨basis', hb', hrender, hpatch⟩ := hb.nextRequest hnext
  have hordered := ha.toOrdered.asking hasks
  cases hw : system.supervisor.worker with
  | none =>
    have hnone : ({ system with main := next } : PreviewSystem M).supervisor.worker = none := hw
    rw [post_idle hnone]
    simp only [hasks.inFlight, if_true]
    refine ⟨hordered.with_main rfl (fun _ hn => (by cases hn)) hordered.believed rfl rfl hordered.idle, basis',
      ⟨hb'.full, hb'.edits, hb'.unedited⟩, fun thread ht => ?_⟩
    rw [show system.supervisor.worker = none from hw] at ht
    cases ht
  | some thread =>
    have hr : Running { system with main := next } thread := hordered.is_running hw
    have hl := ha.linked thread hw
    have hidle : system.main.rebase.inFlight = none := by
      rw [show system.main.rebase.inFlight = system.main.inFlight by unfold PreviewRenderer.rebase; split <;> rfl]
      cases hf : system.main.inFlight with
      | none => rfl
      | some n => exact absurd (Or.inl (by rw [hf]; rfl)) hready
    simp only [hidle] at hl
    have hc := post_cases browser request true hr
    cases hp : PreviewSystem.post browser { system with main := next } request true with
    | mk after sent =>
      rw [hp] at hc
      rcases hc with ⟨hsent, hpush⟩ | ⟨hsent, hf⟩
      · simp only at hsent hpush
        subst hsent
        refine ⟨ha.toOrdered.posting hasks hr hpush, basis', hpush.main ▸ hb', fun pushed hm => ?_⟩
        simp only [hpush.worker, Option.mem_some] at hm
        subst hm
        simp only [hpush.log, hpush.generations, hpush.main]
        exact @Linked.asked M { system with main := system.main.rebase } next request basis basis' thread hl
          ha.toOrdered.believed hasks hrender hpatch
      · simp only at hsent hf
        subst hsent
        simp only [inFlight_failed hr hf, reduceCtorEq, if_false]
        exact hordered.failed hr hf

variable {edits : List TextEdit}

theorem Based.queueEdits {basis : JsString}
    (h : Based main basis) (he : applyTextEdits main.sourceText edits = some sourceText) :
    Based (main.queueEdits edits sourceText) basis where
  full := h.full
  edits queued hq := by
    cases Option.mem_some.mp hq
    cases hq : main.queuedEdits with
    | none =>
      rw [← h.unedited hq] at he ⊢
      exact ⟨he, rfl, rfl⟩
    | some before =>
      obtain ⟨hb, hc, _⟩ := h.edits before hq
      refine ⟨?_, hc, rfl⟩
      rw [Option.getD_some, applyTextEdits_append, hb]
      exact he
  unedited hq := by cases hq

theorem Synced.queueEdits (h : Synced system)
    (he : applyTextEdits system.main.sourceText edits = some sourceText) :
    Synced { system with main := system.main.queueEdits edits sourceText } := by
  obtain ⟨basis, hb, ha⟩ := h.attached
  exact ⟨h.toOrdered.with_main rfl (fun _ hn => hn) h.believed rfl rfl h.idle, basis, hb.queueEdits he, ha.linked⟩

theorem Synced.update (h : Synced system) : Synced (system.update browser edits) := by
  unfold PreviewSystem.update
  split
  · exact h
  split
  · exact h
  · rename_i he
    exact (h.queueEdits he).pump

theorem Synced.clear (h : Synced system) {text : JsString} : Synced (system.clear browser text) := by
  unfold PreviewSystem.clear
  simp only
  obtain ⟨basis, hb, ha⟩ := h.attached
  have hcleared : Attached none
      { system with main := { system.main with idle := none, sourceText := text, workerGeneration := none } } :=
    ⟨h.toOrdered.with_main rfl (fun _ hn => hn) (fun _ hg => (by cases hg)) rfl rfl fun _ hr => (by cases hr),
      fun thread ht => (ha.linked thread ht).weaken none⟩
  obtain ⟨hsource, hpost⟩ := hcleared.post_reset browser false rfl
  have hordered : Ordered (PreviewSystem.post browser
      { system with main := { system.main with idle := none, sourceText := text, workerGeneration := none } }
      .reset false).1 := by
    rcases hpost with ⟨hp, _⟩ | hp
    · exact hp.toOrdered
    · exact hp.toOrdered
  refine ⟨hordered.with_main rfl (fun _ hn => hn) hordered.believed rfl rfl hordered.idle, text,
    ⟨fun _ ht => (Option.mem_some.mp ht).symm, fun _ hn => (by cases hn), fun _ => hsource.symm⟩, fun thread ht => ?_⟩
  rcases hpost with ⟨hp, _⟩ | hp
  · exact hp.linked thread ht
  · obtain ⟨_, _, hl⟩ := hp.based
    exact (hl thread ht).weaken _

theorem Synced.invalidate (h : Synced system) {text : JsString} : Synced (system.invalidate browser text) := by
  unfold PreviewSystem.invalidate
  split
  · exact h
  · exact h.clear.pump

/-! ## The thread's steps -/

theorem WorkerThread.Holds.reevaluated {thread : WorkerThread M} {generations g : WorkerGeneration} {text : JsString}
    (h : thread.Holds g text) (hg : g < generations) :
    WorkerThread.Holds { thread with instances := ⟨MarkdownWorker.start M generations, []⟩ :: thread.instances }
      g text := by
  intro worker hw heq
  rcases mem_cons.mp hw with rfl | hw
  · exact absurd heq (Nat.ne_of_gt hg)
  · exact h worker hw heq

variable {log' : List PreviewLog}

variable {k : Nat}

section
variable {log : List PreviewLog} {generations : WorkerGeneration} {inFlight : Option Nat}
  {believed : Option WorkerGeneration} {basis : Option JsString} {thread thread' : WorkerThread M}

theorem Linked.moved (h : Linked log generations inFlight believed basis thread)
    (ho : thread'.outbox = thread.outbox) (hr : thread'.requests.Perm thread.requests)
    (hm : thread'.modules = thread.modules) : Linked log generations inFlight believed basis thread' where
  pending := by
    unfold WorkerThread.pending
    rw [ho]
    exact (List.Perm.append_left _ (hr.filterMap _)).trans h.pending
  distinct := hm ▸ h.distinct
  supplied := hm ▸ h.supplied
  renders seq text hmem := h.renders seq text (hr.mem_iff.mp hmem)
  patches patch hmem := by
    unfold WorkerThread.Holds
    rw [hm]
    exact h.patches patch (hr.mem_iff.mp hmem)
  answered := ho ▸ h.answered
  rendered := by
    unfold WorkerThread.Holds
    rw [ho, hm]
    exact h.rendered
  settled := by
    unfold WorkerThread.Holds
    rw [hm]
    exact h.settled

theorem Linked.reevaluated (h : Linked log generations inFlight believed basis thread)
    (hb : ∀ g ∈ believed, g < generations) :
    Linked log (generations + 1) inFlight believed basis
      { thread with instances := ⟨MarkdownWorker.start M generations, []⟩ :: thread.instances } where
  pending := h.pending
  distinct := by
    refine nodup_cons.mpr ⟨fun hm => ?_, h.distinct⟩
    obtain ⟨worker, hw, hg⟩ := mem_map.mp hm
    exact absurd hg (Nat.ne_of_lt (h.supplied worker hw))
  supplied worker hw := by
    rcases mem_cons.mp hw with rfl | hw
    · exact Nat.lt_succ_self _
    · exact Nat.lt_succ_of_lt (h.supplied worker hw)
  renders := h.renders
  patches patch hm := by
    obtain ⟨hg, base, text, ht, hp, hh, hbasis⟩ := h.patches patch hm
    exact ⟨Nat.lt_succ_of_lt hg, base, text, ht, hp, hh.reevaluated hg, hbasis⟩
  answered response hm := Nat.lt_succ_of_lt (h.answered response hm)
  rendered seq g blocks hm := by
    obtain ⟨text, hh, hbasis⟩ := h.rendered seq g blocks hm
    exact ⟨text, hh.reevaluated (h.answered _ hm), hbasis⟩
  settled hn g hg b hb' := (h.settled hn g hg b hb').reevaluated (hb g hg)

inductive Processes (worker : MarkdownWorker M) : RenderRequest → MarkdownWorker M → Option RenderResponse → Prop
  | reset {after : MarkdownWorker M} : after.lastText = [] → Processes worker .reset after none
  | render {seq : Nat} {text : JsString} {after : MarkdownWorker M} {blocks : List BlockPatch} : after.lastText = text →
      Processes worker (.render seq text) after (some (.rendered seq worker.generation blocks))
  | patch {patch : PatchRequest} {text : JsString} {after : MarkdownWorker M} {blocks : List BlockPatch} :
      transitionPatch worker.lastText worker.generation patch = .applied text → after.lastText = text →
      Processes worker (.patch patch) after (some (.rendered patch.seq worker.generation blocks))
  | resync {patch : PatchRequest} {actualChars : Nat} {reason : ResyncReason} :
      transitionPatch worker.lastText worker.generation patch = .resync actualChars reason →
      Processes worker (.patch patch) worker (some (.resync patch.seq worker.generation actualChars reason))

theorem processMessage_processes (worker : MarkdownWorker M) (imports : Imports) (request : RenderRequest) :
    (worker.processMessage imports request).1.generation = worker.generation ∧
      Processes worker request (worker.processMessage imports request).1 (worker.processMessage imports request).2 := by
  cases request with
  | reset => exact ⟨rfl, .reset rfl⟩
  | render seq text =>
    obtain ⟨hg, ht, blocks, hb⟩ := worker.respond_spec imports seq text
    refine ⟨hg, ?_⟩
    simp only [MarkdownWorker.processMessage, hb]
    exact .render ht
  | patch patch =>
    simp only [MarkdownWorker.processMessage]
    split
    · rename_i htrans
      exact ⟨rfl, .resync htrans⟩
    rename_i text htrans
    obtain ⟨hg, ht, blocks, hb⟩ := worker.respond_spec imports patch.seq text
    refine ⟨hg, ?_⟩
    simp only [hb]
    exact .patch htrans ht

theorem transitionPatch_applied {text next : JsString} {generation : WorkerGeneration} {patch : PatchRequest}
    (h : transitionPatch text generation patch = .applied next) :
    patch.generation = generation ∧ patch.Takes text next := by
  unfold transitionPatch at h
  split at h
  · cases h
  rename_i hg
  split at h
  · cases h
  rename_i hb
  split at h
  · cases h
  rename_i hn
  split at h
  · cases h
  · rename_i hc
    cases h
    exact ⟨not_not.mp hg, hn, not_not.mp hb, (not_not.mp hc).symm⟩

theorem takes_unique {patch : PatchRequest} {base text held next : JsString} (h : patch.Takes base text)
    (ht : patch.Takes held next) (hheld : held = base ∨ held = []) : next = text := by
  have heq : held = base := by
    rcases hheld with heq | heq
    · exact heq
    · have hlen := h.baseChars.symm.trans ht.baseChars
      rw [heq, length_nil] at hlen
      rw [heq, eq_nil_of_length_eq_zero hlen]
  rw [heq] at ht
  exact Option.some.inj (ht.edits.symm.trans h.edits)

theorem set_split {α : Type*} {l : List α} {a : α} (h : l[k]? = some a) :
    ∃ before behind, l = before ++ a :: behind ∧ ∀ b, l.set k b = before ++ b :: behind := by
  obtain ⟨hk, ha⟩ := List.getElem?_eq_some_iff.mp h
  refine ⟨l.take k, l.drop (k + 1), ?_, fun b => set_eq_take_append_cons_drop.trans (if_pos hk)⟩
  rw [← ha, cons_getElem_drop_succ, take_append_drop]

structure Replaced (thread thread' : WorkerThread M) (worker worker' : MarkdownWorker M) : Prop where
  modules : ∃ before behind, thread.modules = before ++ worker :: behind ∧ thread'.modules = before ++ worker' :: behind
  generation : worker'.generation = worker.generation

section
variable {worker worker' : MarkdownWorker M} {g : WorkerGeneration} {text : JsString}

section

variable (h : Replaced thread thread' worker worker')
include h

theorem Replaced.mem : worker ∈ thread.modules := by
  obtain ⟨before, behind, hm, _⟩ := h.modules
  rw [hm]
  exact mem_append_right _ mem_cons_self

theorem Replaced.generations_eq :
    thread'.modules.map (·.generation) = thread.modules.map (·.generation) := by
  obtain ⟨before, behind, hm, hm'⟩ := h.modules
  rw [hm, hm', map_append, map_append, map_cons, map_cons, h.generation]

theorem Replaced.supplied
    (hs : ∀ worker ∈ thread.modules, worker.generation < generations) :
    ∀ worker ∈ thread'.modules, worker.generation < generations := by
  intro other hm
  have hmem := mem_map_of_mem (f := (·.generation)) hm
  rw [h.generations_eq] at hmem
  obtain ⟨old, hold, heq⟩ := mem_map.mp hmem
  exact heq ▸ hs old hold

theorem Replaced.holds (hh : thread.Holds g text)
    (hw : worker.generation = g → worker'.lastText = text ∨ worker'.lastText = []) : thread'.Holds g text := by
  obtain ⟨before, behind, hm, hm'⟩ := h.modules
  intro other ho heq
  rw [hm'] at ho
  rcases mem_append.mp ho with ho | ho
  · exact hh other (hm ▸ mem_append_left _ ho) heq
  · rcases mem_cons.mp ho with rfl | ho
    · exact hw (h.generation.symm.trans heq)
    · exact hh other (hm ▸ mem_append_right _ (mem_cons_of_mem _ ho)) heq

theorem Replaced.holds_own
    (hd : (thread.modules.map (·.generation)).Nodup) (ht : worker'.lastText = text) :
    thread'.Holds worker.generation text := by
  obtain ⟨before, behind, hm, hm'⟩ := h.modules
  rw [hm, map_append, map_cons] at hd
  have hd' := (nodup_middle.mp hd)
  intro other ho heq
  rw [hm'] at ho
  rcases mem_append.mp ho with ho | ho
  · refine absurd ?_ (nodup_cons.mp hd').1
    exact mem_append_left _ (heq ▸ mem_map_of_mem ho)
  rcases mem_cons.mp ho with rfl | ho
  · exact .inl ht
  · refine absurd ?_ (nodup_cons.mp hd').1
    exact mem_append_right _ (heq ▸ mem_map_of_mem ho)

end

section

variable (h : Linked log generations inFlight believed basis thread)
include h

theorem Linked.patched_posted {patch : PatchRequest}
    (hm : .patch patch ∈ thread.requests) (hw : worker ∈ thread.modules)
    (ht : transitionPatch worker.lastText worker.generation patch = .applied text) :
    .posted patch.seq text ∈ log ∧ ∀ b ∈ basis, text = b := by
  obtain ⟨hg, htakes⟩ := transitionPatch_applied ht
  obtain ⟨_, base, next, hnext, hposted, hh, hb⟩ := h.patches patch hm
  rw [takes_unique hnext htakes (hh worker hw hg.symm)]
  exact ⟨hposted, hb⟩

theorem Linked.answering {seq : Nat}
    (hr : thread.requests.Perm (request :: thread'.requests)) (hseq : request.seq? = some seq) :
    inFlight = some seq ∧ thread.outbox = [] ∧ ∀ r ∈ thread'.requests, r = .reset := by
  have hp := h.pending
  unfold WorkerThread.pending at hp
  have hp' := (List.Perm.append_left _ (hr.filterMap RenderRequest.seq?)).symm.trans hp
  rw [filterMap_cons, hseq] at hp'
  have hlen := hp'.length_eq
  cases inFlight with
  | none =>
    simp only [length_append, length_cons, Option.toList, length_nil] at hlen
    omega
  | some n =>
    simp only [length_append, length_cons, Option.toList, length_nil, length_map] at hlen
    have ho : thread.outbox = [] := eq_nil_of_length_eq_zero (by omega)
    have hf : thread'.requests.filterMap RenderRequest.seq? = [] := eq_nil_of_length_eq_zero (by omega)
    refine ⟨?_, ho, fun r hmem => ?_⟩
    · rw [ho, hf] at hp'
      exact congrArg some (singleton_perm_singleton.mp hp').symm
    have := filterMap_eq_nil_iff.mp hf r hmem
    cases r with
    | reset => rfl
    | render seq text => cases this
    | patch patch => cases this

theorem Linked.unanswered
    (hm : request ∈ thread.requests) (hne : request ≠ .reset) : thread.outbox = [] := by
  have hlen := h.pending.length_eq
  unfold WorkerThread.pending at hlen
  have hpos : 0 < (thread.requests.filterMap RenderRequest.seq?).length := by
    refine length_pos_iff.mpr fun hnil => hne ?_
    have := filterMap_eq_nil_iff.mp hnil request hm
    cases request with
    | reset => rfl
    | render seq text => cases this
    | patch patch => cases this
  have hle : inFlight.toList.length ≤ 1 := by cases inFlight <;> simp only [Option.toList, List.length] <;> omega
  rw [length_append, length_map] at hlen
  exact eq_nil_of_length_eq_zero (by omega)

theorem Linked.answer {response : RenderResponse}
    (hr : thread.requests.Perm (request :: thread'.requests)) (hrep : Replaced thread thread' worker worker')
    (ho : thread'.outbox = thread.outbox ++ [response]) (hseq : request.seq? = some response.seq)
    (hg : response.generation = worker.generation)
    (hrendered : ∀ seq g blocks, response = .rendered seq g blocks → ∃ text, thread'.Holds g text ∧
      ∀ b ∈ basis, text = b) : Linked log' generations inFlight believed basis thread' := by
  obtain ⟨hin, hout, hresets⟩ := h.answering hr hseq
  rw [hout] at ho
  subst hin
  refine ⟨?_, ?_, ?_, ?_, ?_, ?_, ?_, ?_⟩
  · unfold WorkerThread.pending
    rw [ho, filterMap_eq_nil_iff.mpr fun r hm => by rw [hresets r hm]; rfl]
    exact List.Perm.refl _
  · rw [hrep.generations_eq]
    exact h.distinct
  · exact hrep.supplied h.supplied
  · exact fun seq text hm => by cases hresets _ hm
  · exact fun patch hm => by cases hresets _ hm
  · intro other hm
    rw [ho] at hm
    rw [mem_singleton.mp hm, hg]
    exact h.supplied worker hrep.mem
  · intro seq g blocks hm
    rw [ho] at hm
    exact hrendered seq g blocks (mem_singleton.mp hm).symm
  · exact fun hn => by cases hn

theorem Linked.reset
    (hr : thread.requests.Perm (.reset :: thread'.requests)) (hrep : Replaced thread thread' worker worker')
    (ho : thread'.outbox = thread.outbox) (ht : worker'.lastText = []) (hlog : ∀ e ∈ log, e ∈ log') :
    Linked log' generations inFlight believed basis thread' where
  pending := by
    unfold WorkerThread.pending
    rw [ho]
    exact (List.Perm.append_left _ (hr.symm.filterMap _)).trans h.pending
  distinct := by
    rw [hrep.generations_eq]
    exact h.distinct
  supplied := hrep.supplied h.supplied
  renders seq text hm := h.renders seq text (hr.mem_iff.mpr (mem_cons_of_mem _ hm))
  patches patch hm := by
    obtain ⟨hg, base, text, htakes, hp, hh, hb⟩ := h.patches patch (hr.mem_iff.mpr (mem_cons_of_mem _ hm))
    exact ⟨hg, base, text, htakes, hlog _ hp, hrep.holds hh fun _ => .inr ht, hb⟩
  answered := ho ▸ h.answered
  rendered seq g blocks hm := by
    obtain ⟨text, hh, hb⟩ := h.rendered seq g blocks (ho ▸ hm)
    exact ⟨text, hrep.holds hh fun _ => .inr ht, hb⟩
  settled hn g hg b hb := hrep.holds (h.settled hn g hg b hb) fun _ => .inr ht

theorem Linked.work {response : Option RenderResponse}
    (hr : thread.requests.Perm (request :: thread'.requests)) (hrep : Replaced thread thread' worker worker')
    (ho : thread'.outbox = thread.outbox ++ response.toList) (hproc : Processes worker request worker' response)
    (hlog : ∀ e ∈ log, e ∈ log') : Linked log' generations inFlight believed basis thread' := by
  have hasked : request ∈ thread.requests := hr.mem_iff.mpr mem_cons_self
  cases hproc with
  | reset ht => exact h.reset hr hrep (ho.trans (append_nil _)) ht hlog
  | render ht =>
    refine h.answer hr hrep ho rfl rfl fun seq g blocks heq => ?_
    cases heq
    exact ⟨_, hrep.holds_own h.distinct ht, h.renders _ _ hasked⟩
  | patch htrans ht =>
    refine h.answer hr hrep ho rfl rfl fun seq g blocks heq => ?_
    cases heq
    exact ⟨_, hrep.holds_own h.distinct ht, (h.patched_posted hasked hrep.mem htrans).2⟩
  | resync htrans => exact h.answer hr hrep ho rfl rfl fun seq g blocks heq => by cases heq

end

end

end

theorem answerLog_mem {before worker' : MarkdownWorker M} {response : Option RenderResponse}
    {entry : PreviewLog} (h : entry ∈ system.answerLog before worker' request response) :
    (∃ key html shown, entry = .omitted key html shown) ∨
      ∃ patch text, request = .patch patch ∧ entry = .patched patch.seq text ∧
        transitionPatch before.lastText before.generation patch = .applied text := by
  unfold PreviewSystem.answerLog at h
  rcases mem_append.mp h with h | h
  · split at h
    · obtain ⟨block, _, rfl⟩ := mem_map.mp h
      exact .inl ⟨_, _, _, rfl⟩
    · cases h
  · cases request with
    | reset => cases h
    | render seq text => cases h
    | patch patch =>
      simp only at h
      split at h
      · rename_i text ht
        exact .inr ⟨patch, text, rfl, mem_singleton.mp h, ht⟩
      · cases h

theorem Ordered.answered {entries : List PreviewLog} (h : Ordered system)
    (he : ∀ entry ∈ entries, (∃ key html shown, entry = .omitted key html shown) ∨
      ∃ seq text, entry = .patched seq text ∧ .posted seq text ∈ system.log) :
    Ordered { system with log := entries ++ system.log } := by
  induction entries with
  | nil => exact h
  | cons entry entries ih =>
    have hrest := ih fun e hm => he e (mem_cons_of_mem _ hm)
    refine hrest.logged entry ?_ ?_ ?_ ?_ ?_
    · rcases he entry mem_cons_self with ⟨_, _, _, rfl⟩ | ⟨_, _, rfl, hp⟩
      · trivial
      · exact mem_append_right _ hp
    · rintro seq text rfl
      rcases he _ mem_cons_self with ⟨_, _, _, heq⟩ | ⟨_, _, heq, _⟩ <;> cases heq
    · rintro worker seq rfl
      rcases he _ mem_cons_self with ⟨_, _, _, heq⟩ | ⟨_, _, heq, _⟩ <;> cases heq
    · rintro worker rfl
      rcases he _ mem_cons_self with ⟨_, _, _, heq⟩ | ⟨_, _, heq, _⟩ <;> cases heq
    · rcases he entry mem_cons_self with ⟨_, _, _, rfl⟩ | ⟨_, _, rfl, hp⟩
      · exact hrest.idle
      · exact hrest.idle

theorem Ordered.with_thread {thread thread' : WorkerThread M} (h : Ordered system)
    (hw : system.supervisor.worker = some thread) (hid : thread'.id = thread.id) :
    Ordered { system with supervisor := { system.supervisor with worker := some thread' } } where
  chronicle := h.chronicle
  posted := h.posted
  applied := h.applied
  inFlight := h.inFlight
  believed := h.believed
  spawned other ho := by
    rw [← Option.mem_some.mp ho, hid]
    exact h.spawned thread hw
  running _ := h.running (by rw [hw]; rfl)
  terminal hm := by
    have := (h.terminal hm).2
    rw [hw] at this
    cases this
  idle := h.idle

theorem Synced.receive (h : Synced system) : Synced system.receive := by
  unfold PreviewSystem.receive
  split
  · exact h
  rename_i thread hw
  split
  · rename_i request inbox newest older hin hinst
    obtain ⟨basis, hb, hl⟩ := h.based
    refine ⟨h.toOrdered.with_thread hw rfl, basis, hb, fun other ho => ?_⟩
    cases Option.mem_some.mp ho
    refine (hl thread hw).moved rfl ?_ ?_
    · unfold WorkerThread.requests
      simp only [hin, hinst, flatMap_cons, append_assoc]
      refine List.Perm.append_left _ ?_
      rw [singleton_append]
      exact perm_middle.symm
    · unfold WorkerThread.modules
      simp only [hinst, map_cons]
  · exact h

theorem Synced.reevaluate (h : Synced system) : Synced system.reevaluate := by
  unfold PreviewSystem.reevaluate
  split
  · exact h
  rename_i thread hw
  obtain ⟨basis, hb, hl⟩ := h.based
  have hordered : Ordered { system with generations := system.generations + 1 } :=
    { h.toOrdered with believed := fun g hg => Nat.lt_succ_of_lt (h.believed g hg) }
  refine ⟨hordered.with_thread hw rfl, basis, hb, fun other ho => ?_⟩
  cases Option.mem_some.mp ho
  exact (hl thread hw).reevaluated h.believed

theorem Synced.work (h : Synced system) {imports : Imports} : Synced (system.work k imports) := by
  unfold PreviewSystem.work
  split
  · exact h
  rename_i thread hw
  split
  · exact h
  rename_i instance_ hk
  split
  · exact h
  rename_i request queue hq
  simp only
  obtain ⟨basis, hb, hl⟩ := h.based
  obtain ⟨hg, hproc⟩ := processMessage_processes instance_.worker imports request
  obtain ⟨before, behind, hsplit, hset⟩ := set_split hk
  set answer := instance_.worker.processMessage imports request
  have hreq : thread.requests.Perm (request :: WorkerThread.requests
      { thread with
        instances := thread.instances.set k ⟨answer.1, queue⟩
        outbox := thread.outbox ++ answer.2.toList }) := by
    unfold WorkerThread.requests
    simp only [hset]
    simp only [hsplit, flatMap_append, flatMap_cons, hq, append_assoc, cons_append]
    exact perm_middle
  have hrep : Replaced thread
      { thread with
        instances := thread.instances.set k ⟨answer.1, queue⟩
        outbox := thread.outbox ++ answer.2.toList } instance_.worker answer.1 := by
    refine ⟨⟨before.map (·.worker), behind.map (·.worker), ?_, ?_⟩, hg⟩
    · simp only [WorkerThread.modules, hsplit, map_append, map_cons]
    · simp only [WorkerThread.modules, hset, map_append, map_cons]
  have hasked : request ∈ thread.requests := hreq.mem_iff.mpr mem_cons_self
  refine ⟨(h.toOrdered.answered fun entry he => ?_).with_thread hw rfl, basis, hb, fun other ho => ?_⟩
  · rcases answerLog_mem he with ho | ⟨patch, text, rfl, rfl, ht⟩
    · exact .inl ho
    · exact .inr ⟨_, _, rfl, ((hl thread hw).patched_posted hasked hrep.mem ht).1⟩
  · cases Option.mem_some.mp ho
    exact (hl thread hw).work hreq hrep rfl hproc fun e he => mem_append_right _ he

/-! ## A response -/

section
variable {log : List PreviewLog} {generations : WorkerGeneration} {inFlight : Option Nat}
  {believed : Option WorkerGeneration} {basis : Option JsString} {thread : WorkerThread M}

variable {outbox : List RenderResponse}

theorem Linked.delivered {response : RenderResponse}
    (h : Linked log generations inFlight believed basis thread) (ho : thread.outbox = response :: outbox) :
    inFlight = some response.seq ∧ outbox = [] ∧ ∀ r ∈ thread.requests, r = .reset := by
  have hp := h.pending
  unfold WorkerThread.pending at hp
  rw [ho, map_cons, cons_append] at hp
  have hlen := hp.length_eq
  cases inFlight with
  | none => cases hlen
  | some n =>
    simp only [length_append, length_cons, Option.toList, length_nil, length_map] at hlen
    have hout : outbox = [] := eq_nil_of_length_eq_zero (by omega)
    have hf : thread.requests.filterMap RenderRequest.seq? = [] := eq_nil_of_length_eq_zero (by omega)
    refine ⟨?_, hout, fun r hmem => ?_⟩
    · rw [hout, hf] at hp
      exact congrArg some (singleton_perm_singleton.mp hp).symm
    have := filterMap_eq_nil_iff.mp hf r hmem
    cases r with
    | reset => rfl
    | render seq text => cases this
    | patch patch => cases this

theorem Linked.consumed {believed' : Option WorkerGeneration} {basis' : Option JsString}
    {response : RenderResponse}
    (h : Linked log generations inFlight believed basis thread) (ho : thread.outbox = response :: outbox)
    (hb : ∀ g ∈ believed', ∀ b ∈ basis', thread.Holds g b) :
    Linked log' generations none believed' basis' { thread with outbox } := by
  obtain ⟨_, rfl, hresets⟩ := h.delivered ho
  refine ⟨?_, h.distinct, h.supplied, ?_, ?_, fun _ hm => (by cases hm), fun _ _ _ hm => (by cases hm), fun _ => hb⟩
  · show List.Perm (thread.requests.filterMap RenderRequest.seq?) []
    rw [filterMap_eq_nil_iff.mpr fun r hm => by rw [hresets r hm]; rfl]
  · exact fun seq text hm => by cases hresets _ hm
  · exact fun patch hm => by cases hresets _ hm

end

theorem patch_eq (sanitize : JsString → JsString) (main : PreviewRenderer) (seq : Nat) (blocks : List BlockPatch) :
    ∃ children idle, main.patch sanitize seq blocks = { main with children, idle } ∧
      ∀ remainder ∈ idle, remainder.seq = seq := by
  unfold PreviewRenderer.patch
  split
  · exact ⟨_, _, rfl, fun remainder hr => by rw [← Option.mem_some.mp hr]⟩
  · exact ⟨_, none, rfl, fun _ hr => by cases hr⟩

theorem Based.queueFull {believed : Option WorkerGeneration} :
    Based { main with
      inFlight := none
      workerGeneration := believed
      queuedEdits := none
      queuedFull := some main.sourceText } main.sourceText :=
  ⟨fun _ ht => (Option.mem_some.mp ht).symm, fun _ hn => (by cases hn), fun _ => rfl⟩

/-- The response was taken off its worker, and the deadline is off. -/
structure Delivered (system after : PreviewSystem M) (thread : WorkerThread M) (response : RenderResponse) : Prop where
  outbox : ∃ outbox, thread.outbox = response :: outbox ∧ after.supervisor.worker = some { thread with outbox }
  stopped : after.supervisor.stopped = false
  main : after.main = system.main
  log : after.log = system.log
  generations : after.generations = system.generations
  microtasks : after.microtasks = system.microtasks

section
variable {thread : WorkerThread M} {response : RenderResponse}

theorem Delivered.ordered (hd : Delivered system after thread response) (h : Ordered system)
    (hw : system.supervisor.worker = some thread) : Ordered after := by
  obtain ⟨⟨outbox, _, hsup⟩, hstop, hmain, hlog, hgen, htasks⟩ := hd
  have hrun := h.is_running hw
  refine ⟨?_, ?_, ?_, ?_, ?_, ?_, ?_, ?_, ?_⟩
  · rw [hlog]
    exact h.chronicle
  · rw [hlog, hmain]
    exact h.posted
  · rw [hlog, hmain]
    exact h.applied
  · rw [hlog, hmain]
    exact h.inFlight
  · rw [hmain, hgen]
    exact h.believed
  · rw [hsup, hlog]
    intro other hm
    rw [← Option.mem_some.mp hm]
    exact h.spawned thread hw
  · rw [hmain]
    exact fun _ => ⟨hstop, hrun.destroyed, hrun.workerTerminal⟩
  · rw [htasks]
    exact fun hm => absurd hm (h.notTerminal hw)
  · rw [hmain, hlog]
    exact h.idle

theorem Synced.resync {seq actualChars : Nat} {generation : WorkerGeneration} {reason : ResyncReason} (h : Synced system)
    (hw : system.supervisor.worker = some thread)
    (hd : Delivered system after thread (.resync seq generation actualChars reason)) :
    Synced (after.resync browser generation) := by
  obtain ⟨basis, hb, hl⟩ := h.based
  have hordered := hd.ordered h.toOrdered hw
  obtain ⟨⟨outbox, ho, hsup⟩, _, hmain, hlog, hgen, _⟩ := hd
  have hg := (hl thread hw).answered _ (ho ▸ mem_cons_self)
  unfold PreviewSystem.resync
  refine Synced.post_reset ⟨?_, after.main.sourceText, Based.queueFull, fun other hm => ?_⟩
  · refine hordered.with_main rfl (fun _ hn => (by cases hn)) (fun g hm => ?_) rfl rfl hordered.idle
    rw [← Option.mem_some.mp hm, hgen]
    exact hg
  simp only [hsup] at hm
  cases Option.mem_some.mp hm
  simp only [hgen]
  exact (hl thread hw).consumed ho fun _ _ _ hn => by cases hn

theorem Synced.apply {seq : Nat} {generation : WorkerGeneration} {blocks : List BlockPatch} (h : Synced system)
    (hw : system.supervisor.worker = some thread) (hd : Delivered system after thread (.rendered seq generation blocks)) :
    Synced (after.apply browser thread.id seq generation blocks) := by
  obtain ⟨basis, hb, hl⟩ := h.based
  have hordered := hd.ordered h.toOrdered hw
  obtain ⟨⟨outbox, ho, hsup⟩, _, hmain, hlog, hgen, _⟩ := hd
  have hlink := hl thread hw
  have hg := hlink.answered _ (ho ▸ mem_cons_self)
  obtain ⟨hseq, happ⟩ := h.inFlight seq (hlink.delivered ho).1
  unfold PreviewSystem.apply
  simp only
  obtain ⟨children, idle, hpatch, hidle⟩ := patch_eq browser.sanitize
    { after.main with inFlight := none, workerGeneration := some generation } seq blocks
  rw [hpatch]
  refine ⟨?_, basis, ?_, fun other hm => ?_⟩
  · have hcleared : Ordered { after with main := { after.main with inFlight := none, idle := none } } :=
      hordered.with_main rfl (fun _ hn => (by cases hn)) hordered.believed rfl rfl fun _ hn => (by cases hn)
    have hlogged := hcleared.logged (.applied thread.id seq)
      ⟨by simp only [hlog]; exact h.spawned thread hw, by simp only [hlog]; exact happ⟩ (by rintro _ _ ⟨⟩)
      (by rintro _ _ ⟨⟩; exact ⟨by simp only [hmain]; exact Nat.le_of_eq hseq, rfl⟩) (by rintro _ ⟨⟩) (by rintro _ ⟨⟩)
    refine hlogged.with_main rfl (fun _ hn => (by cases hn)) (fun g hm => ?_) rfl rfl fun remainder hr => ?_
    · simp only [hgen]
      rw [← Option.mem_some.mp hm]
      exact hg
    · exact congrArg some (hidle remainder hr).symm
  · rw [hmain]
    exact ⟨hb.full, hb.edits, hb.unedited⟩
  · simp only [hsup] at hm
    cases Option.mem_some.mp hm
    simp only [hgen, hmain]
    refine hlink.consumed ho fun g hm b hbasis => ?_
    obtain ⟨text, hh, ht⟩ := hlink.rendered seq generation blocks (ho ▸ mem_cons_self)
    rw [← Option.mem_some.mp hm, ← ht b hbasis]
    exact hh

theorem Synced.onRendered (h : Synced system) (hw : system.supervisor.worker = some thread)
    (hd : Delivered system after thread response) : Synced (after.onRendered browser thread.id response) := by
  obtain ⟨basis, hb, hl⟩ := h.based
  obtain ⟨outbox, ho, _⟩ := hd.outbox
  have hin := ((hl thread hw).delivered ho).1
  have hacts := (h.toOrdered.is_running hw).acts
  unfold PreviewSystem.onRendered
  rw [hd.main, if_neg hacts, if_neg (not_not.mpr hin)]
  cases response with
  | resync seq generation actualChars reason => exact (h.resync hw hd).pump
  | rendered seq generation blocks => exact (h.apply hw hd).pump

end

section

variable (h : Synced system)
include h

theorem Synced.messageRetired {worker : Nat} : Synced (system.messageRetired worker) :=
  ⟨{ h.toOrdered with }, h.based⟩

theorem Synced.message {worker : Nat} : Synced (system.message browser worker) := by
  unfold PreviewSystem.message
  split
  · exact h.messageRetired
  rename_i thread hw
  split
  · exact h.messageRetired
  rename_i hid
  rw [not_not.mp hid |>.symm]
  split
  · exact h
  rename_i response outbox ho
  have hrun := h.toOrdered.is_running hw
  unfold PreviewSystem.onMessage
  rw [if_neg fun hf => ?_]
  · exact h.onRendered hw ⟨⟨outbox, ho, rfl⟩, hrun.stopped, rfl, rfl, rfl, rfl⟩
  · rcases hf with hf | hf
    · exact Bool.false_ne_true (hrun.stopped.symm.trans hf)
    · exact hf rfl

theorem Synced.paint : Synced (system.paint browser) := by
  unfold PreviewSystem.paint
  split
  · exact h
  rename_i remainder hr
  split
  · exact h
  have hlast := h.idle remainder hr
  have hlogged := h.toOrdered.logged (.painted remainder.seq) hlast (by rintro _ _ ⟨⟩)
    (by rintro _ _ ⟨⟩) (by rintro _ ⟨⟩) h.idle
  obtain ⟨basis, hb, hl⟩ := h.based
  refine ⟨hlogged.with_main rfl (fun _ hn => hn) h.believed rfl rfl fun other ho => ?_, basis,
    ⟨hb.full, hb.edits, hb.unedited⟩, fun thread ht => ?_⟩
  · unfold PreviewRenderer.paint at ho
    simp only at ho
    split at ho
    · rw [← Option.mem_some.mp ho]
      exact hlast
    · cases ho
  · obtain ⟨hp, hd, hs, hrend, hpat, hans, hren, hset⟩ := hl thread ht
    refine ⟨hp, hd, hs, hrend, fun patch hm => ?_, hans, hren, hset⟩
    obtain ⟨hg, base, text, htakes, hposted, hh, hbasis⟩ := hpat patch hm
    exact ⟨hg, base, text, htakes, mem_cons_of_mem _ hposted, hh, hbasis⟩

theorem Synced.runTask {task : PreviewTask}
    (ht : task = .terminal → system.supervisor.worker = none) : Synced (system.runTask browser task) := by
  cases task with
  | recover =>
    unfold PreviewSystem.runTask
    simp only
    split
    · exact h
    · exact h.post_reset.pump
  | terminal =>
    unfold PreviewSystem.runTask PreviewRenderer.onWorkerTerminal
    simp only
    split
    · exact h
    have hnone := ht rfl
    refine ⟨{ h.toOrdered with inFlight := fun _ hn => (by cases hn), running := fun hs => ?_,
                               idle := fun _ hn => (by cases hn) }, system.main.sourceText,
      ⟨fun _ hn => (by cases hn), fun _ hn => (by cases hn), fun _ => rfl⟩, fun thread hw => ?_⟩
    · rw [show system.supervisor.worker = none from hnone] at hs
      cases hs
    · rw [show system.supervisor.worker = none from hnone] at hw
      cases hw

theorem Synced.microtask : Synced (system.microtask browser) := by
  unfold PreviewSystem.microtask
  split
  · exact h
  rename_i task microtasks hm
  have hpopped : Synced { system with microtasks } :=
    ⟨{ h.toOrdered with terminal := fun ht => h.terminal (by rw [hm]; exact mem_cons_of_mem _ ht) }, h.based⟩
  exact hpopped.runTask fun ht => (h.terminal (by rw [hm, ht]; exact mem_cons_self)).2

theorem Synced.destroy : Synced system.destroy := by
  obtain ⟨basis, hb, hl⟩ := h.based
  have hbase : Based { system.main with destroyed := true, idle := none } basis := ⟨hb.full, hb.edits, hb.unedited⟩
  have hordered : ∀ (supervisor : WorkerSupervisor M) retired, supervisor.worker = none →
      (system.supervisor.stopped = true → supervisor.stopped = true) →
      Ordered { system with supervisor, retired, main := { system.main with destroyed := true, idle := none } } :=
    fun supervisor retired hnone hstop =>
      { h.toOrdered with
        spawned := fun _ hw => (by simp only [hnone] at hw; cases hw)
        running := fun hw => (by simp only [hnone] at hw; cases hw)
        terminal := fun hm => ⟨hstop (h.terminal hm).1, hnone⟩
        idle := fun _ hn => (by cases hn) }
  have hgone : ∀ (supervisor : WorkerSupervisor M) retired, supervisor.worker = none →
      (system.supervisor.stopped = true → supervisor.stopped = true) →
      Synced { system with supervisor, retired, main := { system.main with destroyed := true, idle := none } } :=
    fun supervisor retired hnone hstop =>
      ⟨hordered supervisor retired hnone hstop, basis, hbase, fun _ hw => by simp only [hnone] at hw; cases hw⟩
  unfold PreviewSystem.destroy
  simp only
  split
  · rename_i hs
    refine hgone system.supervisor system.retired ?_ fun hs => hs
    cases hw : system.supervisor.worker with
    | none => rfl
    | some thread => exact absurd hs (by rw [(h.toOrdered.is_running hw).stopped]; exact Bool.false_ne_true)
  · cases hw : system.supervisor.worker with
    | none => exact hgone _ _ hw fun _ => rfl
    | some thread => exact hgone _ _ rfl fun _ => rfl

theorem Synced.timeout : Synced (system.timeout browser) := by
  unfold PreviewSystem.timeout
  split
  · split
    · exact h.fail
    · exact h
  · exact h

theorem Synced.step (event : PreviewEvent) : Synced (system.step browser event) := by
  cases event with
  | update edits => exact h.update
  | invalidate text => exact h.invalidate
  | receive => exact h.receive
  | reevaluate => exact h.reevaluate
  | work k imports => exact h.work
  | message worker => exact h.message
  | timeout => exact h.timeout
  | workerError worker => exact h.fail
  | microtask => exact h.microtask
  | idle => exact h.paint
  | destroy => exact h.destroy

end

theorem synced_start : Synced (PreviewSystem.start M browser) := by
  unfold PreviewSystem.start
  cases hb : browser.unspawnable 0 with
  | true =>
    simp only [spawn, hb, if_true]
    exact ⟨⟨trivial, fun _ _ hm => (by cases hm), fun _ _ hm => (by cases hm), fun _ hn => (by cases hn),
      fun _ hn => (by cases hn), fun _ hn => (by cases hn), fun hn => (by cases hn), fun _ => ⟨rfl, rfl⟩,
      fun _ hn => (by cases hn)⟩, [],
      ⟨fun _ hn => (by cases hn), fun _ hn => (by cases hn), fun _ => rfl⟩, fun _ hn => (by cases hn)⟩
  | false =>
    simp only [spawn, hb, Bool.false_eq_true, if_false]
    refine ⟨⟨⟨trivial, trivial⟩, fun _ _ hm => ?_, fun _ _ hm => ?_, fun _ hn => (by cases hn),
      fun _ hn => (by cases hn), fun thread ht => ?_, fun _ => ⟨rfl, rfl, rfl⟩, fun hm => (by cases hm),
      fun _ hn => (by cases hn)⟩, [],
      ⟨fun _ hn => (by cases hn), fun _ hn => (by cases hn), fun _ => rfl⟩, fun thread ht => ?_⟩
    · cases mem_singleton.mp hm
    · cases mem_singleton.mp hm
    · rw [← Option.mem_some.mp ht]
      rfl
    · rw [← Option.mem_some.mp ht]
      exact linked_fresh

theorem run_synced (M : Markdown) (browser : Browser) (events : List PreviewEvent) :
    Synced (Transition.run (PreviewSystem.step browser) (PreviewSystem.start M browser) events) :=
  Transition.run_inv (C := fun _ _ => True) (fun _ event h _ => h.step event) synced_start
    (Transition.along_of fun _ _ => trivial)

end

/-! ## What is applied -/

theorem posted_unique {log : List PreviewLog} {seq : Nat} {text source : JsString}
    (h : Transition.Chronicle Orderly log) (hs : .posted seq source ∈ log) (ht : .posted seq text ∈ log) :
    source = text := by
  induction log with
  | nil => cases hs
  | cons entry log ih =>
    rcases mem_cons.mp hs with hs | hs
    · rcases mem_cons.mp ht with ht | ht
      · rw [← hs] at ht
        cases ht
        rfl
      · rw [← hs] at h
        exact absurd (h.1 seq text ht) (Nat.lt_irrefl _)
    · rcases mem_cons.mp ht with ht | ht
      · rw [← ht] at h
        exact absurd (h.1 seq source hs) (Nat.lt_irrefl _)
      · exact ih h.2 hs ht

theorem Ordered.patched_source {system : PreviewSystem M} (h : Ordered system) {seq : Nat} {text : JsString}
    (hm : .patched seq text ∈ system.log) :
    .posted seq text ∈ system.log ∧ ∀ source, .posted seq source ∈ system.log → source = text := by
  obtain ⟨later, earlier, hlog⟩ := append_of_mem hm
  have hposted : .posted seq text ∈ earlier := (hlog ▸ h.chronicle).agrees_at
  have hmem : .posted seq text ∈ system.log := by
    rw [hlog]
    exact mem_append_right _ (mem_cons_of_mem _ hposted)
  exact ⟨hmem, fun source hs => posted_unique h.chronicle hs hmem⟩

/-- **A delta takes the worker to the text it was cut from**, and only the latest request of the worker spawned
last shows. -/
theorem preview_synchronised (browser : Browser) (events : List PreviewEvent) :
    let log := (Transition.run (PreviewSystem.step browser) (PreviewSystem.start M browser) events).log
    (∀ seq text, .patched seq text ∈ log →
      .posted seq text ∈ log ∧ ∀ source, .posted seq source ∈ log → source = text) ∧
    (∀ later earlier worker seq, log = later ++ .applied worker seq :: earlier →
      lastSpawned earlier = some worker ∧ ∀ w n, .applied w n ∈ earlier → n < seq) ∧
    ∀ later earlier seq, log = later ++ .painted seq :: earlier → lastApplied earlier = some seq := by
  have h := run_synced M browser events
  refine ⟨fun seq text hm => h.toOrdered.patched_source hm, fun later earlier worker seq hl => ?_,
    fun later earlier seq hl => ?_⟩
  · have hc := h.chronicle
    rw [hl] at hc
    exact hc.agrees_at
  · have hc := h.chronicle
    rw [hl] at hc
    exact hc.agrees_at

end

end Marks
