import Mathlib.Data.List.Nodup
import Marks.EditorBridge
import Marks.Runs

/-! # Editor and replica converge

The text that the microtasks of a view lead to is the replica's text, as long as no step takes a reconcile or an edit
away that a view still needs, and none captures or replays a text that is about to be out of date. -/

namespace Marks

open List

/-! ## Edits -/

section
variable {text later : JsString} {edit : TextEdit} {edits : List TextEdit} {start stop : Int} {insert : JsString}

theorem applyTextEdits_cons : applyTextEdits text (edit :: edits) = (applyTextEdit text edit).bind (applyTextEdits · edits) :=
  rfl

theorem applyTextEdits_nil : applyTextEdits text [] = some text := rfl

theorem applyTextEdit_some (h : applyTextEdit text edit = some later) :
    0 ≤ edit.from_ ∧ edit.from_ ≤ edit.to_ ∧ edit.to_ ≤ text.length ∧
      later = text.take edit.from_.toNat ++ edit.insert ++ text.drop edit.to_.toNat := by
  unfold applyTextEdit at h
  split at h
  · cases h
  rename_i hfits
  simp only [not_or, Int.not_lt] at hfits
  obtain ⟨_, _, hstart, horder, hend⟩ := hfits
  refine ⟨hstart, horder, hend, ?_⟩
  cases h
  unfold JsString.slice
  rw [drop_zero, take_length]

theorem applyTextEdits_singleton (h : applyTextEdits text [edit] = some later) : applyTextEdit text edit = some later := by
  rw [applyTextEdits_cons] at h
  obtain ⟨_, happlied, h⟩ := Option.bind_eq_some_iff.mp h
  cases h
  exact happlied

theorem replacement_applied (hstart : 0 ≤ start) (horder : start ≤ stop)
    (h : applyTextEdits text (replacement start stop insert) = some later) :
    later = text.take start.toNat ++ insert ++ text.drop stop.toNat := by
  unfold replacement at h
  rw [applyTextEdits_append] at h
  obtain ⟨deleted, hdelete, hinsert⟩ := Option.bind_eq_some_iff.mp h
  have hd : deleted = text.take start.toNat ++ text.drop stop.toNat ∧
      (start < stop → start.toNat ≤ text.length) := by
    by_cases hlt : start < stop
    · rw [if_pos hlt] at hdelete
      obtain ⟨_, _, hend, rfl⟩ := applyTextEdit_some (applyTextEdits_singleton hdelete)
      refine ⟨by rw [append_nil], fun _ => ?_⟩
      simp only at hend
      omega
    · rw [if_neg hlt] at hdelete
      cases hdelete
      have hsame : stop = start := by omega
      rw [hsame, take_append_drop]
      exact ⟨rfl, fun hlt' => absurd hlt' (Int.lt_irrefl _)⟩
  by_cases hempty : insert = []
  · rw [if_neg (by simpa using hempty)] at hinsert
    cases hinsert
    rw [hempty, append_nil]
    exact hd.1
  · rw [if_pos hempty] at hinsert
    obtain ⟨_, _, hend, rfl⟩ := applyTextEdit_some (applyTextEdits_singleton hinsert)
    simp only at hend ⊢
    have hlength : start.toNat ≤ text.length := by
      rcases Int.lt_or_eq_of_le horder with hlt | heq
      · exact hd.2 hlt
      · rw [hd.1, heq, take_append_drop] at hend
        omega
    have hat : (text.take start.toNat).length = start.toNat := by
      rw [length_take]
      exact Nat.min_eq_left hlength
    rw [hd.1, take_left' hat, drop_left' hat]

end

/-! ## Changes of a transaction -/

theorem ChangesFit.le {length pos : Nat} {changes : List EditorChange} (h : ChangesFit length pos changes) :
    pos ≤ length := by
  induction changes generalizing pos with
  | nil => exact h
  | cons change changes ih => exact Nat.le_trans h.1 (Nat.le_trans h.2.1 (ih h.2.2))

section
variable {text later before : JsString} {pos : Nat} {change : EditorChange} {changes : List EditorChange}

theorem change_applied (hpos : pos ≤ change.fromA) (horder : change.fromA ≤ change.toA) :
    (before ++ text.drop pos).take (before.length + (change.fromA - pos)) ++ change.inserted ++
        (before ++ text.drop pos).drop (before.length + (change.toA - pos)) =
      before ++ text.slice pos change.fromA ++ change.inserted ++ text.drop change.toA := by
  have hend : pos + (change.toA - pos) = change.toA := by omega
  rw [take_length_add_append, drop_length_add_append, drop_drop, hend, JsString.slice, List.drop_take]

theorem adjusted_applied (hfit : ChangesFit text.length pos changes)
    (h : applyTextEdits (before ++ text.drop pos) (adjusted (before.length - pos) changes) = some later) :
    later = before ++ changed text pos changes := by
  induction changes generalizing before pos with
  | nil =>
    cases h
    rfl
  | cons change changes ih =>
    obtain ⟨hpos, horder, hrest⟩ := hfit
    rw [adjusted, applyTextEdits_append] at h
    obtain ⟨middle, hreplaced, h⟩ := Option.bind_eq_some_iff.mp h
    have hmiddle := replacement_applied (by omega) (by omega) hreplaced
    have hfrom : ((change.fromA : Int) + (before.length - pos)).toNat = before.length + (change.fromA - pos) := by omega
    have hto : ((change.toA : Int) + (before.length - pos)).toNat = before.length + (change.toA - pos) := by omega
    rw [hfrom, hto, change_applied hpos horder] at hmiddle
    rw [hmiddle] at h
    have hle := hrest.le
    have hadjust : ((before.length : Int) - pos) + (change.inserted.length - (change.toA - change.fromA)) =
        ((before ++ text.slice pos change.fromA ++ change.inserted).length : Int) - change.toA := by
      rw [length_append, length_append, JsString.slice, length_drop, length_take]
      omega
    rw [hadjust] at h
    rw [ih hrest h, changed]
    simp only [append_assoc]

end

/-! ## Large changes -/

section
variable {text later : JsString} {start : Nat}

theorem deleteCounts_applied {fuel remaining : Nat} (hfuel : remaining ≤ fuel)
    (h : applyTextEdits text ((deleteCounts fuel remaining).map
      (fun (count : Nat) => [(⟨start, start + count, []⟩ : TextEdit)])).flatten = some later) :
    later = text.take start ++ text.drop (start + remaining) := by
  induction fuel generalizing text remaining with
  | zero =>
    obtain rfl : remaining = 0 := by omega
    cases h
    rw [Nat.add_zero, take_append_drop]
  | succ fuel ih =>
    unfold deleteCounts at h
    split at h
    · rename_i hzero
      cases h
      rw [hzero, Nat.add_zero, take_append_drop]
    rename_i hsome
    rw [map_cons, flatten_cons, applyTextEdits_append] at h
    obtain ⟨middle, hdeleted, h⟩ := Option.bind_eq_some_iff.mp h
    obtain ⟨_, _, hend, rfl⟩ := applyTextEdit_some (applyTextEdits_singleton hdeleted)
    simp only at hend h
    have hpositive : 0 < min remaining editorChunkUnits := by
      unfold editorChunkUnits
      omega
    have hat : (text.take start).length = start := by
      rw [length_take]
      omega
    have hrest := ih (by omega) h
    rw [append_nil, Int.toNat_natCast, take_left' hat, ← drop_drop, drop_left' hat,
      drop_drop] at hrest
    rw [hrest]
    congr 2
    omega

theorem insertChunks_applied {insert after : JsString} {fuel offset : Nat} (hfuel : insert.length ≤ offset + fuel)
    (hstart : text.length = start)
    (h : applyTextEdits (text ++ insert.take offset ++ after) ((insertChunks insert fuel offset).map
      (fun (offset, chunk) => [(⟨start + offset, start + offset, chunk⟩ : TextEdit)])).flatten = some later) :
    later = text ++ insert ++ after := by
  induction fuel generalizing offset with
  | zero =>
    cases h
    rw [take_of_length_le (by omega)]
  | succ fuel ih =>
    unfold insertChunks at h
    split at h
    · rename_i hle
      cases h
      rw [take_of_length_le hle]
    rename_i hlt
    rw [map_cons, flatten_cons, applyTextEdits_append] at h
    obtain ⟨middle, hinserted, h⟩ := Option.bind_eq_some_iff.mp h
    obtain ⟨_, _, _, rfl⟩ := applyTextEdit_some (applyTextEdits_singleton hinserted)
    have hat : ((start : Int) + (offset : Int)).toNat = start + offset := by omega
    have hlength : (text ++ insert.take offset).length = start + offset := by
      rw [length_append, length_take, hstart]
      omega
    have hmore : insert.take offset ++ insert.slice offset (offset + editorChunkUnits) =
        insert.take (offset + editorChunkUnits) := by
      rw [JsString.slice, List.drop_take, Nat.add_sub_cancel_left, ← take_add]
    simp only [hat, take_left' hlength, drop_left' hlength] at h
    rw [append_assoc text, hmore] at h
    have hchunk : 0 < editorChunkUnits := by decide
    exact ih (by omega) h

theorem replaceRangeChunked_applied {stop : Nat} {insert : JsString} (horder : start ≤ stop) (hstop : stop ≤ text.length)
    (h : applyTextEdits text (replaceRangeChunked start stop insert).flatten = some later) :
    later = text.take start ++ insert ++ text.drop stop := by
  unfold replaceRangeChunked at h
  split at h
  · rw [flatten_singleton] at h
    exact replacement_applied (by omega) (by omega) h
  rw [flatten_append, applyTextEdits_append] at h
  obtain ⟨middle, hdeleted, h⟩ := Option.bind_eq_some_iff.mp h
  have hmiddle := deleteCounts_applied (Nat.le_refl _) hdeleted
  have hat : (text.take start).length = start := by
    rw [length_take]
    omega
  have hdone : start + ((stop : Int) - start).toNat = stop := by omega
  rw [hdone] at hmiddle
  have hnone : text.take start ++ text.drop stop = text.take start ++ insert.take 0 ++ text.drop stop := by
    rw [take_zero, append_nil]
  rw [hmiddle, hnone] at h
  exact insertChunks_applied (Nat.le_add_left _ _) hat h

def Balanced : List EditorChange → Prop
  | [] => True
  | change :: changes => (changes ≠ [] → change.inserted.length = change.toA - change.fromA) ∧ Balanced changes

instance decidableBalanced : ∀ changes, Decidable (Balanced changes)
  | [] => isTrue trivial
  | _ :: changes => @instDecidableAnd _ _ _ (decidableBalanced changes)

theorem inHalves_applied {before : JsString} {pos : Nat} {changes : List EditorChange} (hb : Balanced changes)
    (hfit : ChangesFit text.length pos changes) (hpos : changes ≠ [] → before.length = pos)
    (h : applyTextEdits (before ++ text.drop pos) (inHalves changes).flatten = some later) :
    later = before ++ changed text pos changes := by
  induction changes generalizing before pos with
  | nil =>
    cases h
    rfl
  | cons change changes ih =>
    obtain ⟨hbefore, horder, hrest⟩ := hfit
    have hle := hrest.le
    have hlength := hpos (cons_ne_nil _ _)
    unfold inHalves at h
    rw [flatMap_cons, flatten_append, applyTextEdits_append] at h
    obtain ⟨middle, hreplaced, h⟩ := Option.bind_eq_some_iff.mp h
    have hmiddle := replaceRangeChunked_applied horder
      (by rw [length_append, length_drop]; omega) hreplaced
    have hfrom : change.fromA = before.length + (change.fromA - pos) := by omega
    have hto : change.toA = before.length + (change.toA - pos) := by omega
    have hchange := @change_applied text before pos change hbefore horder
    rw [← hfrom, ← hto] at hchange
    rw [hchange] at hmiddle
    rw [hmiddle] at h
    rw [ih hb.2 hrest ?_ h, changed]
    · simp only [append_assoc]
    intro hmore
    have hsame := hb.1 hmore
    rw [length_append, length_append, JsString.slice, length_drop, length_take]
    omega

end

namespace EditorBridge

/-! ## Reconciling -/

section
variable {current target : JsString}

theorem commonStart_take : current.take (commonStart current target) = target.take (commonStart current target) := by
  induction current generalizing target with
  | nil => cases target <;> rfl
  | cons c current ih =>
    cases target with
    | nil => rfl
    | cons d target =>
      unfold commonStart
      split
      · rename_i hsame
        rw [take_succ_cons, take_succ_cons, hsame, ih]
      · rfl

theorem commonStart_le : commonStart current target ≤ current.length ∧ commonStart current target ≤ target.length := by
  induction current generalizing target with
  | nil => cases target <;> exact ⟨Nat.zero_le _, Nat.zero_le _⟩
  | cons c current ih =>
    cases target with
    | nil => exact ⟨Nat.zero_le _, Nat.zero_le _⟩
    | cons d target =>
      unfold commonStart
      split
      · exact ⟨Nat.succ_le_succ ih.1, Nat.succ_le_succ ih.2⟩
      · exact ⟨Nat.zero_le _, Nat.zero_le _⟩

theorem reconciled_eq : reconciled current target = target := by
  unfold reconciled
  split
  · assumption
  have hstart := @commonStart_take current target
  have hle := @commonStart_le current target
  generalize commonStart current target = start at hstart hle
  have hshared := @commonStart_take (current.drop start).reverse (target.drop start).reverse
  have hsize := @commonStart_le (current.drop start).reverse (target.drop start).reverse
  rw [length_reverse, length_reverse, length_drop, length_drop] at hsize
  simp only
  generalize commonStart (current.drop start).reverse (target.drop start).reverse = shared at hshared hsize
  rw [take_reverse, take_reverse, reverse_inj, drop_drop, drop_drop, length_drop,
    length_drop] at hshared
  have hcurrent : start + (current.length - start - shared) = current.length - shared := by omega
  have htarget : start + (target.length - start - shared) = target.length - shared := by omega
  rw [hcurrent, htarget] at hshared
  have hjoin : target.take start ++ target.slice start (target.length - shared) = target.take (target.length - shared) := by
    have hmiddle : start + (target.length - shared - start) = target.length - shared := by omega
    rw [JsString.slice, List.drop_take, ← take_add, hmiddle]
  rw [hstart, hjoin, hshared, take_append_drop]

end

/-! ## What the slots are due to bring -/

/-- A patch runs behind the reconcile. -/
def behind : List Microtask → Bool
  | [] => false
  | .reconcile :: rest => rest.contains .patch
  | .mount _ :: rest | .patch :: rest => behind rest

section
variable {E : TextEngine} (bridge : EditorBridge E)

def targeted (view : Nat) : Option JsString :=
  match bridge.reconcileTarget with
  | some target => if target.view = view then some target.text else none
  | none => none

def Due (view : EditorView) : Prop :=
  match bridge.targeted view.id with
  | some text =>
    applyTextEdits text (if behind bridge.microtasks then bridge.pendingEdits view.id else []) = some bridge.text
  | none => applyTextEdits view.text (bridge.pendingEdits view.id) = some bridge.text

def MayReconcile (view : Nat) : Prop :=
  (∀ target ∈ bridge.reconcileTarget, target.view ≠ view → ∀ found ∈ bridge.mounted, found.id = target.view →
    applyTextEdits found.text (bridge.pendingEdits found.id) = some bridge.text) ∧
  (behind bridge.microtasks = true → bridge.pendingEdits view = [])

def MayChange : Prop :=
  ∀ view ∈ bridge.mounted, (∀ other ∈ bridge.mounted, other.id = view.id) ∧
    ((bridge.targeted view.id).isSome = true → .patch ∈ bridge.microtasks → behind bridge.microtasks = true)

def MayType (view : Nat) : Prop :=
  (∀ other ∈ bridge.mounted, other.id = view) ∧ bridge.targeted view = none ∧ bridge.pendingEdits view = []

def accepts : E.Doc → List (List TextEdit) → Bool
  | _, [] => true
  | doc, ops :: rest =>
    match E.transact doc ops with
    | .ok (doc, _) => accepts doc rest
    | .error _ => false

def GuardedChange (chunks : List (List TextEdit)) : Prop :=
  bridge.canEdit = true → accepts bridge.doc (chunks.take 1) = true → bridge.MayChange

def GuardedTransaction (view : Nat) (changes : List EditorChange) : Prop :=
  match E.transact bridge.doc (adjusted 0 changes) with
  | .ok _ => bridge.MayType view
  | .error .messageTooLarge | .error .tooManyOperations =>
    bridge.MayType view ∧ (accepts bridge.doc (inHalves changes) = true → Balanced changes)
  | .error .allocationExhausted | .error .identifierTooDeep | .error .documentTooLarge => bridge.MayReconcile view
  | .error .other => True

def GuardedMicrotask : Prop :=
  match bridge.microtasks with
  | .mount view :: _ => (∃ found ∈ bridge.mounted, found.id = view) → bridge.MayReconcile view
  | .patch :: _ => ∀ target ∈ bridge.editorPatchTarget, ∀ found ∈ bridge.views, found.id = target.view →
      applyTextEdits found.text target.edits = none → bridge.MayReconcile target.view
  | .reconcile :: _ | [] => True

def Guarded : BridgeEvent E → Prop
  | .mount text => (bridge.destroyed = false → bridge.MayReconcile bridge.nextView) ∧
      (bridge.destroyed = true → text = bridge.text)
  | .ready view => bridge.destroyed = false → ∀ found ∈ bridge.mounted, found.id = view → found.ready = true →
      bridge.MayReconcile view
  | .transaction view changes => bridge.canEdit = true → ∀ found ∈ bridge.mounted, found.id = view → changes ≠ [] →
      ChangesFit found.text.length 0 changes → bridge.GuardedTransaction view changes
  | .importRemote artifact =>
    bridge.destroyed = false → ∀ result ∈ E.importArtifact bridge.doc artifact, result.2 ≠ [] → bridge.MayChange
  | .undo => bridge.canEdit = true → (E.undo bridge.doc).2 ≠ [] → bridge.MayChange
  | .redo => bridge.canEdit = true → (E.redo bridge.doc).2 ≠ [] → bridge.MayChange
  | .setText markdown => bridge.GuardedChange [[⟨0, bridge.text.length, markdown⟩]]
  | .replaceRange start stop insert => bridge.GuardedChange (replaceRangeChunked start stop insert)
  | .microtask => bridge.destroyed = false → bridge.GuardedMicrotask
  | .terminate => bridge.destroyed = false → bridge.reconcileQueued = false ∧ bridge.editorPatchQueued = false
  | .unmount _ | .permit _ => True

def Converged : Prop :=
  bridge.reconcileQueued = false → bridge.editorPatchQueued = false → ∀ view ∈ bridge.mounted, view.text = bridge.text

end

/-! ## Queues and slots -/

section
variable {queue : List Microtask} {view : Nat}

theorem behind_mount : behind (queue ++ [.mount view]) = behind queue := by
  induction queue with
  | nil => rfl
  | cons task queue ih =>
    cases task with
    | reconcile => simp [behind]
    | mount other => exact ih
    | patch => exact ih

theorem behind_reconcile (h : queue.count .reconcile = 0) : behind (queue ++ [.reconcile]) = false := by
  induction queue with
  | nil => rfl
  | cons task queue ih =>
    cases task with
    | reconcile => simp at h
    | mount other => exact ih (by simpa using h)
    | patch => exact ih (by simpa using h)

theorem behind_patch (h : 0 < queue.count .reconcile) : behind (queue ++ [.patch]) = true := by
  induction queue with
  | nil => simp at h
  | cons task queue ih =>
    cases task with
    | reconcile => simp [behind]
    | mount other => exact ih (by simpa using h)
    | patch => exact ih (by simpa using h)

theorem behind_no_patch (h : queue.count .patch = 0) : behind queue = false := by
  induction queue with
  | nil => rfl
  | cons task queue ih =>
    cases task with
    | reconcile =>
      have hnone : Microtask.patch ∉ queue := by
        rw [count_cons_of_ne (by decide)] at h
        exact count_eq_zero.mp h
      simpa [behind] using hnone
    | mount other => exact ih (by simpa using h)
    | patch => simp at h

end

structure Tidy {E : TextEngine} (bridge : EditorBridge E) : Prop where
  ids : (bridge.views.map (·.id)).Nodup
  fresh : ∀ view ∈ bridge.views, view.id < bridge.nextView
  reconciles : bridge.microtasks.count .reconcile = bridge.reconcileQueued.toNat
  patches : bridge.microtasks.count .patch = bridge.editorPatchQueued.toNat
  reconcileTarget : bridge.reconcileTarget.isSome = bridge.reconcileQueued
  patchTarget : bridge.editorPatchTarget.isSome = bridge.editorPatchQueued
  reconcileView : ∀ target ∈ bridge.reconcileTarget, target.view < bridge.nextView
  patchView : ∀ target ∈ bridge.editorPatchTarget, target.view < bridge.nextView

structure Sound {E : TextEngine} (bridge : EditorBridge E) : Prop where
  tidy : bridge.Tidy
  due : bridge.destroyed = false → ∀ view ∈ bridge.mounted, bridge.Due view
  frozen : bridge.destroyed = true → ∀ view ∈ bridge.mounted, view.text = bridge.text

section
variable {E : TextEngine} {bridge later : EditorBridge E} {found : EditorView} {view : Nat} {text : JsString}
  {edits : List TextEdit}

theorem mem_mounted : found ∈ bridge.mounted ↔ found ∈ bridge.views ∧ found.disposed = false := by
  unfold mounted
  rw [mem_filter, Bool.not_eq_true']

theorem targeted_some : bridge.targeted view = some text ↔ bridge.reconcileTarget = some ⟨view, text⟩ := by
  unfold targeted
  cases bridge.reconcileTarget with
  | none => exact ⟨fun h => (by cases h), fun h => (by cases h)⟩
  | some target =>
    obtain ⟨other, held⟩ := target
    simp only [Option.some.injEq, ReconcileTarget.mk.injEq]
    split
    · rename_i hsame
      rw [Option.some.injEq]
      exact ⟨fun h => ⟨hsame, h⟩, fun h => h.2⟩
    · rename_i hother
      exact ⟨fun h => (by cases h), fun h => absurd h.1 hother⟩

theorem pendingEdits_fresh (h : bridge.Tidy) : bridge.pendingEdits bridge.nextView = [] := by
  unfold pendingEdits
  split
  · rename_i target htarget
    have hlt := h.patchView target htarget
    rw [if_neg (by omega)]
  · rfl

theorem pendingEdits_none (h : bridge.Tidy) (hp : bridge.microtasks.count .patch = 0) : bridge.pendingEdits view = [] := by
  have hqueued := h.patches
  have htarget := h.patchTarget
  unfold pendingEdits
  split
  · rename_i target hsome
    rw [hsome] at htarget
    rw [← htarget, hp] at hqueued
    cases hqueued
  · rfl

theorem Due.congr {moved : EditorView} (h : bridge.Due found) (hid : moved.id = found.id) (htext : moved.text = found.text)
    (hdoc : later.doc = bridge.doc) (hr : later.reconcileTarget = bridge.reconcileTarget)
    (hp : later.editorPatchTarget = bridge.editorPatchTarget) (hq : behind later.microtasks = behind bridge.microtasks) :
    later.Due moved := by
  unfold Due targeted pendingEdits EditorBridge.text at h ⊢
  rw [hr, hp, hq, hid, htext, hdoc]
  exact h

/-! ## Scheduling -/

section
variable (bridge view)

@[simp] theorem scheduleReconcile_doc : (bridge.scheduleReconcile view).doc = bridge.doc := by
  unfold scheduleReconcile
  split <;> rfl

@[simp] theorem scheduleReconcile_text : (bridge.scheduleReconcile view).text = bridge.text := by
  unfold EditorBridge.text
  rw [scheduleReconcile_doc]

@[simp] theorem scheduleReconcile_views : (bridge.scheduleReconcile view).views = bridge.views := by
  unfold scheduleReconcile
  split <;> rfl

@[simp] theorem scheduleReconcile_mounted : (bridge.scheduleReconcile view).mounted = bridge.mounted := by
  unfold mounted
  rw [scheduleReconcile_views]

@[simp] theorem scheduleReconcile_destroyed : (bridge.scheduleReconcile view).destroyed = bridge.destroyed := by
  unfold scheduleReconcile
  split <;> rfl

@[simp] theorem scheduleReconcile_patch :
    (bridge.scheduleReconcile view).editorPatchTarget = bridge.editorPatchTarget := by
  unfold scheduleReconcile
  split <;> rfl

theorem scheduleReconcile_target :
    (bridge.scheduleReconcile view).reconcileTarget = some ⟨view, bridge.text⟩ := by
  unfold scheduleReconcile
  split <;> rfl

end

theorem Tidy.scheduleReconcile (h : bridge.Tidy) (hv : view < bridge.nextView) : (bridge.scheduleReconcile view).Tidy := by
  have htargets : ∀ target ∈ (some ⟨view, bridge.text⟩ : Option ReconcileTarget), target.view < bridge.nextView := by
    intro target ht
    cases ht
    exact hv
  unfold EditorBridge.scheduleReconcile
  split
  · rename_i hqueued
    exact ⟨h.ids, h.fresh, h.reconciles, h.patches, hqueued.symm, h.patchTarget, htargets, h.patchView⟩
  rename_i hidle
  refine ⟨h.ids, h.fresh, ?_, ?_, rfl, h.patchTarget, htargets, h.patchView⟩
  · have hnone := h.reconciles
    rw [Bool.not_eq_true] at hidle
    rw [hidle] at hnone
    rw [count_append, hnone]
    rfl
  · rw [count_append, h.patches]
    rfl

theorem Due.scheduleReconcile (h : bridge.Tidy) (hm : bridge.MayReconcile view) (hf : found ∈ bridge.mounted)
    (hd : found.id ≠ view → bridge.Due found) : (bridge.scheduleReconcile view).Due found := by
  have hpending : (bridge.scheduleReconcile view).pendingEdits found.id = bridge.pendingEdits found.id := by
    unfold pendingEdits
    rw [scheduleReconcile_patch]
  unfold Due targeted
  rw [scheduleReconcile_target, hpending, scheduleReconcile_text]
  by_cases hid : found.id = view
  · simp only [if_pos hid.symm]
    have hnone : (if behind (bridge.scheduleReconcile view).microtasks then bridge.pendingEdits found.id else []) = [] := by
      split
      · rename_i hbehind
        unfold EditorBridge.scheduleReconcile at hbehind
        split at hbehind
        · rw [hid]
          exact hm.2 hbehind
        rename_i hidle
        have hzero := h.reconciles
        rw [Bool.not_eq_true] at hidle
        rw [hidle] at hzero
        rw [behind_reconcile hzero] at hbehind
        cases hbehind
      · rfl
    rw [hnone]
    rfl
  · simp only [if_neg (Ne.symm hid)]
    have hdue := hd hid
    unfold Due at hdue
    cases ht : bridge.targeted found.id with
    | none =>
      rw [ht] at hdue
      exact hdue
    | some held => exact hm.1 _ (targeted_some.mp ht) hid found hf rfl

theorem Sound.scheduleReconcile (h : bridge.Sound) (hv : view < bridge.nextView)
    (hm : bridge.destroyed = false → bridge.MayReconcile view) : (bridge.scheduleReconcile view).Sound := by
  refine ⟨h.tidy.scheduleReconcile hv, fun hlive found hf => ?_, fun hend found hf => ?_⟩
  · rw [scheduleReconcile_destroyed] at hlive
    rw [scheduleReconcile_mounted] at hf
    exact .scheduleReconcile h.tidy (hm hlive) hf fun _ => h.due hlive found hf
  rw [scheduleReconcile_destroyed] at hend
  rw [scheduleReconcile_mounted] at hf
  rw [scheduleReconcile_text]
  exact h.frozen hend found hf

end

/-! ## Changes of the replica -/

section
variable {E : TextEngine} {bridge later : EditorBridge E} {found : EditorView} {view : Nat} {text : JsString}
  {edits : List TextEdit} {doc : E.Doc} {origin : EditorOrigin}

theorem mounted_single (h : bridge.Tidy) (hf : found ∈ bridge.mounted) (ho : ∀ other ∈ bridge.mounted, other.id = found.id) :
    bridge.mounted = [found] := by
  have hnodup : (bridge.mounted.map (·.id)).Nodup := h.ids.sublist (List.filter_sublist.map _)
  cases hm : bridge.mounted with
  | nil => rw [hm] at hf; cases hf
  | cons first rest =>
    rw [hm] at hf ho hnodup
    have hfirst := ho first mem_cons_self
    cases rest with
    | nil =>
      rw [mem_singleton] at hf
      rw [hf]
    | cons second rest =>
      have hsecond := ho second (mem_cons_of_mem _ mem_cons_self)
      rw [map_cons, map_cons, nodup_cons] at hnodup
      exact absurd (mem_cons.mpr (.inl (hfirst.trans hsecond.symm))) hnodup.1

theorem scheduleEditorPatch_queue (h : bridge.Tidy) (he : edits ≠ []) :
    .patch ∈ (bridge.scheduleEditorPatch view edits).microtasks ∧
      (bridge.microtasks.count .patch = 0 →
        (bridge.scheduleEditorPatch view edits).microtasks = bridge.microtasks ++ [.patch]) ∧
      (bridge.microtasks.count .patch ≠ 0 →
        (bridge.scheduleEditorPatch view edits).microtasks = bridge.microtasks) := by
  have hcount := h.patches
  unfold scheduleEditorPatch
  rw [if_neg he]
  by_cases hqueued : bridge.editorPatchQueued = true
  · simp only [if_pos hqueued]
    rw [hqueued] at hcount
    refine ⟨?_, fun hzero => ?_, fun _ => trivial⟩
    · exact count_pos_iff.mp (by rw [hcount]; exact Nat.zero_lt_one)
    · rw [hcount] at hzero
      cases hzero
  · simp only [if_neg hqueued]
    rw [Bool.not_eq_true] at hqueued
    rw [hqueued] at hcount
    exact ⟨mem_append_right _ (mem_singleton_self _), fun _ => trivial, fun hsome => absurd hcount hsome⟩

theorem scheduleEditorPatch_fields (he : edits ≠ []) :
    (bridge.scheduleEditorPatch view edits).doc = bridge.doc ∧
      (bridge.scheduleEditorPatch view edits).views = bridge.views ∧
      (bridge.scheduleEditorPatch view edits).nextView = bridge.nextView ∧
      (bridge.scheduleEditorPatch view edits).destroyed = bridge.destroyed ∧
      (bridge.scheduleEditorPatch view edits).edit = bridge.edit ∧
      (bridge.scheduleEditorPatch view edits).reconcileTarget = bridge.reconcileTarget ∧
      (bridge.scheduleEditorPatch view edits).reconcileQueued = bridge.reconcileQueued ∧
      (bridge.scheduleEditorPatch view edits).editorPatchTarget = some ⟨view, bridge.pendingEdits view ++ edits⟩ ∧
      (bridge.scheduleEditorPatch view edits).editorPatchQueued = true := by
  unfold scheduleEditorPatch
  rw [if_neg he]
  split
  · rename_i hqueued
    exact ⟨rfl, rfl, rfl, rfl, rfl, rfl, rfl, rfl, hqueued⟩
  · exact ⟨rfl, rfl, rfl, rfl, rfl, rfl, rfl, rfl, rfl⟩

theorem Tidy.scheduleEditorPatch (h : bridge.Tidy) (hv : view < bridge.nextView) :
    (bridge.scheduleEditorPatch view edits).Tidy := by
  by_cases he : edits = []
  · unfold EditorBridge.scheduleEditorPatch
    rw [if_pos he]
    exact h
  obtain ⟨_, hviews, hnext, _, _, hr, hrq, hp, hpq⟩ := @scheduleEditorPatch_fields _ bridge view _ he
  obtain ⟨_, hnew, hold⟩ := @scheduleEditorPatch_queue _ bridge view _ h he
  refine ⟨?_, ?_, ?_, ?_, ?_, ?_, ?_, ?_⟩
  · rw [hviews]
    exact h.ids
  · rw [hviews, hnext]
    exact h.fresh
  · rw [hrq, ← h.reconciles]
    by_cases hc : bridge.microtasks.count .patch = 0
    · rw [hnew hc, count_append]
      rfl
    · rw [hold hc]
  · rw [hpq]
    by_cases hc : bridge.microtasks.count .patch = 0
    · rw [hnew hc, count_append, hc]
      rfl
    have hone := h.patches
    rw [hold hc]
    cases hq : bridge.editorPatchQueued with
    | true => rw [hone, hq]
    | false =>
      rw [hq] at hone
      exact absurd hone hc
  · rw [hr, hrq]
    exact h.reconcileTarget
  · rw [hp, hpq]
    rfl
  · rw [hr, hnext]
    exact h.reconcileView
  · rw [hp, hnext]
    intro target ht
    cases ht
    exact hv

theorem Due.scheduleEditorPatch (h : bridge.Tidy) (he : edits ≠ []) (hd : bridge.Due found)
    (hb : (bridge.targeted found.id).isSome = true → .patch ∈ bridge.microtasks → behind bridge.microtasks = true)
    (happlied : applyTextEdits bridge.text edits = some (E.text doc)) :
    ({ bridge with doc }.scheduleEditorPatch found.id edits).Due found := by
  have htidy : ({ bridge with doc } : EditorBridge E).Tidy := ⟨h.1, h.2, h.3, h.4, h.5, h.6, h.7, h.8⟩
  obtain ⟨hdoc, _, _, _, _, hr, _, hp, _⟩ := @scheduleEditorPatch_fields _ { bridge with doc } found.id _ he
  obtain ⟨_, hnew, hold⟩ := @scheduleEditorPatch_queue _ { bridge with doc } found.id _ htidy he
  have hpending : ({ bridge with doc }.scheduleEditorPatch found.id edits).pendingEdits found.id =
      bridge.pendingEdits found.id ++ edits := by
    conv_lhs => unfold pendingEdits
    rw [hp]
    exact if_pos rfl
  have htext : ({ bridge with doc }.scheduleEditorPatch found.id edits).text = E.text doc := by
    unfold EditorBridge.text
    rw [hdoc]
  have htargeted : ({ bridge with doc }.scheduleEditorPatch found.id edits).targeted found.id =
      bridge.targeted found.id := by
    unfold targeted
    rw [hr]
  unfold Due at hd ⊢
  rw [hpending, htext, htargeted]
  cases ht : bridge.targeted found.id with
  | none =>
    rw [ht] at hd
    simp only at hd ⊢
    rw [applyTextEdits_append, hd]
    exact happlied
  | some held =>
    have hordered := hb (by rw [ht]; rfl)
    rw [ht] at hd
    simp only at hd ⊢
    -- The patch runs behind the reconcile, before the change and after it.
    have hbehind : behind ({ bridge with doc }.scheduleEditorPatch found.id edits).microtasks = true := by
      by_cases hc : bridge.microtasks.count .patch = 0
      · rw [hnew hc]
        refine behind_patch ?_
        have hqueued := h.reconcileTarget
        rw [targeted_some.mp ht, Option.isSome_some] at hqueued
        show 0 < bridge.microtasks.count .reconcile
        rw [h.reconciles, ← hqueued]
        exact Nat.zero_lt_one
      · rw [hold hc]
        exact hordered (count_pos_iff.mp (Nat.pos_of_ne_zero hc))
    rw [if_pos hbehind, applyTextEdits_append]
    by_cases hc : bridge.microtasks.count .patch = 0
    · rw [behind_no_patch hc] at hd
      rw [pendingEdits_none h hc, applyTextEdits_nil]
      cases hd
      exact happlied
    · rw [if_pos (hordered (count_pos_iff.mp (Nat.pos_of_ne_zero hc)))] at hd
      rw [hd]
      exact happlied

end

/-! ## Transactions of the replica -/

section
variable {E : TextEngine} {bridge later : EditorBridge E} {found : EditorView} {view : Nat} {doc : E.Doc}
  {edits : List TextEdit} {origin : EditorOrigin} {chunks : List (List TextEdit)} {error : Option EsbtError}

theorem Tidy.withDoc (h : bridge.Tidy) (doc : E.Doc) : ({ bridge with doc } : EditorBridge E).Tidy :=
  ⟨h.1, h.2, h.3, h.4, h.5, h.6, h.7, h.8⟩

theorem advance_cases (h : bridge.Tidy) (ho : origin ≠ .editor) (hc : edits ≠ [] → bridge.MayChange) :
    (edits = [] ∧ bridge.advance origin doc edits = { bridge with doc }) ∨
      (edits ≠ [] ∧ bridge.mounted = [] ∧ bridge.advance origin doc edits = { bridge with doc }) ∨
      (edits ≠ [] ∧ ∃ found, bridge.mounted = [found] ∧
        bridge.advance origin doc edits = { bridge with doc }.scheduleEditorPatch found.id edits) := by
  unfold advance emitChange
  by_cases he : edits = []
  · rw [if_pos (.inl he)]
    exact .inl ⟨he, rfl⟩
  rw [if_neg (by rintro (h | h); exact he h; exact ho h)]
  have hmounted : ({ bridge with doc } : EditorBridge E).mounted = bridge.mounted := rfl
  rw [hmounted]
  cases hm : bridge.mounted with
  | nil => exact .inr (.inl ⟨he, rfl, rfl⟩)
  | cons found rest =>
    have hf : found ∈ bridge.mounted := by
      rw [hm]
      exact mem_cons_self
    have hsingle := mounted_single h hf (hc he found hf).1
    rw [hm] at hsingle
    rw [hsingle]
    exact .inr (.inr ⟨he, found, rfl, rfl⟩)

theorem Sound.advance (h : bridge.Sound) (hlive : bridge.destroyed = false) (ho : origin ≠ .editor)
    (hc : edits ≠ [] → bridge.MayChange) (happlied : applyTextEdits bridge.text edits = some (E.text doc)) :
    (bridge.advance origin doc edits).Sound := by
  rcases @advance_cases _ _ doc _ _ h.tidy ho hc with ⟨rfl, heq⟩ | ⟨_, hm, heq⟩ | ⟨he, found, hm, heq⟩
  · have htext : E.text doc = bridge.text := by
      rw [applyTextEdits_nil, Option.some.injEq] at happlied
      exact happlied.symm
    rw [heq]
    refine ⟨h.tidy.withDoc doc, fun _ view hv => ?_, fun hend => absurd hend (by rw [hlive]; exact Bool.false_ne_true)⟩
    have hdue := h.due hlive view hv
    unfold Due targeted pendingEdits EditorBridge.text at hdue ⊢
    rw [htext]
    exact hdue
  · rw [heq]
    refine ⟨h.tidy.withDoc doc, fun _ view hv => ?_, fun hend => absurd hend (by rw [hlive]; exact Bool.false_ne_true)⟩
    have hnone : view ∈ bridge.mounted := hv
    rw [hm] at hnone
    cases hnone
  · have hf : found ∈ bridge.mounted := by
      rw [hm]
      exact mem_cons_self
    obtain ⟨_, hviews, _, hdestroyed, _⟩ := @scheduleEditorPatch_fields _ { bridge with doc } found.id _ he
    have hmounted : ({ bridge with doc }.scheduleEditorPatch found.id edits).mounted = [found] := by
      rw [← hm]
      unfold mounted
      rw [hviews]
    rw [heq]
    refine ⟨(h.tidy.withDoc doc).scheduleEditorPatch (h.tidy.fresh found (mem_mounted.mp hf).1), ?_, ?_⟩
    · intro _ view hv
      rw [hmounted, mem_singleton] at hv
      rw [hv]
      exact .scheduleEditorPatch h.tidy he (h.due hlive found hf) (hc he found hf).2 happlied
    · intro hend
      rw [hdestroyed] at hend
      exact absurd hend (by rw [hlive]; exact Bool.false_ne_true)

theorem MayChange.advance (h : bridge.Tidy) (ho : origin ≠ .editor) (hc : bridge.MayChange) :
    (bridge.advance origin doc edits).MayChange ∧ (bridge.advance origin doc edits).destroyed = bridge.destroyed := by
  rcases @advance_cases _ _ doc _ _ h ho (fun _ => hc) with ⟨_, heq⟩ | ⟨_, _, heq⟩ | ⟨he, found, hm, heq⟩
  · rw [heq]
    exact ⟨hc, rfl⟩
  · rw [heq]
    exact ⟨hc, rfl⟩
  have hf : found ∈ bridge.mounted := by
    rw [hm]
    exact mem_cons_self
  obtain ⟨_, hviews, _, hdestroyed, _, hr, _⟩ := @scheduleEditorPatch_fields _ { bridge with doc } found.id _ he
  obtain ⟨_, hnew, hold⟩ := @scheduleEditorPatch_queue _ { bridge with doc } found.id _ (h.withDoc doc) he
  have hmounted : ({ bridge with doc }.scheduleEditorPatch found.id edits).mounted = [found] := by
    rw [← hm]
    unfold mounted
    rw [hviews]
  rw [heq]
  refine ⟨fun view hv => ?_, hdestroyed⟩
  rw [hmounted, mem_singleton] at hv
  rw [hv, hmounted]
  refine ⟨fun other hother => by rw [mem_singleton.mp hother], fun ht _ => ?_⟩
  unfold targeted at ht
  rw [hr] at ht
  by_cases hcount : bridge.microtasks.count .patch = 0
  · rw [hnew hcount]
    refine behind_patch ?_
    obtain ⟨held, hheld⟩ := Option.isSome_iff_exists.mp ht
    have hqueued := h.reconcileTarget
    rw [targeted_some.mp hheld] at hqueued
    show 0 < bridge.microtasks.count .reconcile
    rw [h.reconciles, ← hqueued]
    exact Nat.zero_lt_one
  · rw [hold hcount]
    exact (hc found hf).2 ht (count_pos_iff.mp (Nat.pos_of_ne_zero hcount))

theorem Sound.transacts (hE : E.Lawful) (h : bridge.Sound) (hlive : bridge.destroyed = false) (ho : origin ≠ .editor)
    (hc : bridge.MayChange) : (transacts origin chunks bridge).1.Sound := by
  induction chunks generalizing bridge with
  | nil => exact h
  | cons ops chunks ih =>
    unfold EditorBridge.transacts
    split
    · rename_i doc edits hok
      have hlater := @MayChange.advance _ _ doc edits _ h.tidy ho hc
      exact ih (h.advance hlive ho (fun _ => hc) (hE.transact hok).2) (hlater.2.trans hlive) hlater.1
    · exact h

theorem transacts_refused (h : accepts bridge.doc (chunks.take 1) = false) : (transacts origin chunks bridge).1 = bridge := by
  cases chunks with
  | nil => cases h
  | cons ops chunks =>
    rw [take_succ_cons, take_zero, accepts] at h
    unfold EditorBridge.transacts
    split
    · rename_i doc edits hok
      rw [hok] at h
      cases h
    · rfl

theorem live_of_canEdit (h : bridge.canEdit = true) : bridge.destroyed = false := by
  unfold canEdit at h
  rw [Bool.and_eq_true, Bool.not_eq_true'] at h
  exact h.2

theorem Sound.guardedChange (hE : E.Lawful) (h : bridge.Sound) (ho : origin ≠ .editor) (hedit : bridge.canEdit = true)
    (hc : bridge.GuardedChange chunks) : (EditorBridge.transacts origin chunks bridge).1.Sound := by
  have hlive := live_of_canEdit hedit
  cases ha : accepts bridge.doc (chunks.take 1) with
  | true => exact h.transacts hE hlive ho (hc hedit ha)
  | false =>
    rw [transacts_refused ha]
    exact h

theorem transacts_editor (hE : E.Lawful) (h : transacts .editor chunks bridge = (later, error)) :
    (∃ doc, later = { bridge with doc }) ∧ accepts bridge.doc chunks = error.isNone ∧
      (error = none → applyTextEdits bridge.text chunks.flatten = some later.text) := by
  induction chunks generalizing bridge with
  | nil =>
    cases h
    exact ⟨⟨_, rfl⟩, rfl, fun _ => rfl⟩
  | cons ops chunks ih =>
    unfold EditorBridge.transacts at h
    split at h
    · rename_i doc edits hok
      have hadvance : bridge.advance .editor doc edits = { bridge with doc } := if_pos (.inr rfl)
      rw [hadvance] at h
      obtain ⟨⟨final, hfinal⟩, haccepts, happlied⟩ := ih h
      unfold accepts
      rw [hok]
      refine ⟨⟨final, hfinal⟩, haccepts, fun hnone => ?_⟩
      rw [flatten_cons, applyTextEdits_append]
      exact Option.bind_eq_some_iff.mpr ⟨_, (hE.transact hok).1, happlied hnone⟩
    · rename_i thrown hrefused
      cases h
      unfold accepts
      rw [hrefused]
      exact ⟨⟨_, rfl⟩, rfl, fun hnone => (by cases hnone)⟩

end

/-! ## Views -/

section
variable {E : TextEngine} {bridge : EditorBridge E} {found other : EditorView} {view : Nat} {text : JsString}

theorem view?_some (h : bridge.Tidy) : bridge.view? view = some found ↔ found ∈ bridge.views ∧ found.id = view := by
  unfold view?
  constructor
  · intro hfind
    exact ⟨mem_of_find?_eq_some hfind, by simpa using find?_some hfind⟩
  rintro ⟨hm, rfl⟩
  cases hfind : bridge.views.find? (·.id == found.id) with
  | none => exact absurd (find?_eq_none.mp hfind found hm) (by simp)
  | some other =>
    have hid : other.id = found.id := by simpa using find?_some hfind
    rw [inj_on_of_nodup_map h.ids (mem_of_find?_eq_some hfind) hm hid]

theorem mem_showText (h : other ∈ (bridge.showText view text).views) :
    ∃ found ∈ bridge.views, other.id = found.id ∧ other.disposed = found.disposed ∧
      other.text = if found.id = view then text else found.text := by
  obtain ⟨found, hm, rfl⟩ := mem_map.mp h
  refine ⟨found, hm, ?_⟩
  split
  · exact ⟨rfl, rfl, rfl⟩
  · exact ⟨rfl, rfl, rfl⟩

theorem showText_ids : (bridge.showText view text).views.map (·.id) = bridge.views.map (·.id) := by
  unfold showText
  rw [map_map]
  refine map_congr_left fun found _ => ?_
  simp only [Function.comp_apply]
  split <;> rfl

theorem Tidy.showText (h : bridge.Tidy) : (bridge.showText view text).Tidy := by
  refine ⟨?_, fun other ho => ?_, h.3, h.4, h.5, h.6, h.7, h.8⟩
  · rw [showText_ids]
    exact h.ids
  · obtain ⟨found, hm, hid, _⟩ := mem_showText ho
    rw [hid]
    exact h.fresh found hm

theorem mem_showText_mounted (h : other ∈ (bridge.showText view text).mounted) :
    ∃ found ∈ bridge.mounted, other.id = found.id ∧ other.text = if found.id = view then text else found.text := by
  obtain ⟨hm, hd⟩ := mem_mounted.mp h
  obtain ⟨found, hf, hid, hdisposed, htext⟩ := mem_showText hm
  rw [hdisposed] at hd
  exact ⟨found, mem_mounted.mpr ⟨hf, hd⟩, hid, htext⟩

theorem mem_dispose_mounted (h : found ∈ (bridge.dispose view).mounted) : found ∈ bridge.mounted ∧ found.id ≠ view := by
  obtain ⟨hm, hd⟩ := mem_mounted.mp h
  obtain ⟨was, hw, rfl⟩ := mem_map.mp hm
  by_cases hid : was.id = view
  · rw [if_pos hid] at hd
    cases hd
  · rw [if_neg hid] at hd ⊢
    exact ⟨mem_mounted.mpr ⟨hw, hd⟩, hid⟩

theorem Tidy.dispose (h : bridge.Tidy) : (bridge.dispose view).Tidy := by
  have hids : (bridge.dispose view).views.map (·.id) = bridge.views.map (·.id) := by
    unfold EditorBridge.dispose
    rw [map_map]
    refine map_congr_left fun found _ => ?_
    simp only [Function.comp_apply]
    split <;> rfl
  refine ⟨?_, fun other ho => ?_, h.3, h.4, h.5, h.6, h.7, h.8⟩
  · rw [hids]
    exact h.ids
  have hid : other.id ∈ bridge.views.map (·.id) := by
    rw [← hids]
    exact mem_map_of_mem ho
  obtain ⟨found, hm, hsame⟩ := mem_map.mp hid
  rw [← hsame]
  exact h.fresh found hm

theorem Sound.dispose (h : bridge.Sound) : (bridge.dispose view).Sound :=
  ⟨h.tidy.dispose, fun hlive found hf => (h.due hlive found (mem_dispose_mounted hf).1).congr rfl rfl rfl rfl rfl rfl,
    fun hend found hf => h.frozen hend found (mem_dispose_mounted hf).1⟩

theorem Sound.crashed (h : bridge.Sound) : ((bridge.showText view text).dispose view).Sound := by
  have hwas : ∀ found ∈ ((bridge.showText view text).dispose view).mounted,
      ∃ was ∈ bridge.mounted, found.id = was.id ∧ found.text = was.text := by
    intro found hf
    obtain ⟨hshown, hid⟩ := mem_dispose_mounted hf
    obtain ⟨was, hw, hsame, htext⟩ := mem_showText_mounted hshown
    rw [if_neg (by rw [← hsame]; exact hid)] at htext
    exact ⟨was, hw, hsame, htext⟩
  refine ⟨h.tidy.showText.dispose, fun hlive found hf => ?_, fun hend found hf => ?_⟩
  · obtain ⟨was, hw, hid, htext⟩ := hwas found hf
    exact (h.due hlive was hw).congr hid htext rfl rfl rfl rfl
  · obtain ⟨was, hw, _, htext⟩ := hwas found hf
    rw [htext]
    exact h.frozen hend was hw

/-! ## Transactions of the editor -/

theorem MayType.shown (hs : bridge.Sound) (hlive : bridge.destroyed = false) (h : bridge.MayType view)
    (hf : found ∈ bridge.mounted) : found.text = bridge.text := by
  have hid := h.1 found hf
  have hdue := hs.due hlive found hf
  unfold Due at hdue
  rw [hid, h.2.1, h.2.2, applyTextEdits_nil] at hdue
  exact Option.some.inj hdue

theorem Sound.typed {doc : E.Doc} (h : bridge.Sound) (hlive : bridge.destroyed = false) (ht : bridge.MayType view)
    (htext : E.text doc = text) : (({ bridge with doc } : EditorBridge E).showText view text).Sound := by
  refine ⟨(h.tidy.withDoc doc).showText, fun _ other ho => ?_,
    fun hend => absurd (hlive.symm.trans hend) Bool.false_ne_true⟩
  obtain ⟨found, hf, hid, hshown⟩ := mem_showText_mounted ho
  have hview : found.id = view := ht.1 found hf
  rw [if_pos hview] at hshown
  have htargeted : (({ bridge with doc } : EditorBridge E).showText view text).targeted view = none := ht.2.1
  have hpending : (({ bridge with doc } : EditorBridge E).showText view text).pendingEdits view = [] := ht.2.2
  unfold Due
  rw [hid, hview, htargeted, hpending, hshown, ← htext]
  rfl

theorem Sound.typedRefused {doc : E.Doc} (h : bridge.Sound) (hlive : bridge.destroyed = false)
    (ht : bridge.MayType view) (hv : view < bridge.nextView) :
    ((({ bridge with doc } : EditorBridge E).showText view text).scheduleReconcile view).Sound := by
  have htidy : (({ bridge with doc } : EditorBridge E).showText view text).Tidy := (h.tidy.withDoc doc).showText
  have hall : ∀ found ∈ (({ bridge with doc } : EditorBridge E).showText view text).mounted, found.id = view := by
    intro found hf
    obtain ⟨was, hw, hid, _⟩ := mem_showText_mounted hf
    rw [hid]
    exact ht.1 was hw
  refine ⟨htidy.scheduleReconcile hv, fun _ other ho => ?_, fun hend => ?_⟩
  · rw [scheduleReconcile_mounted] at ho
    refine .scheduleReconcile htidy ⟨fun target _ hne found hf hid => ?_, fun _ => ht.2.2⟩ ho fun hne => ?_
    · exact absurd (hid.symm.trans (hall found hf)) hne
    · exact absurd (hall other ho) hne
  · rw [scheduleReconcile_destroyed] at hend
    cases hlive.symm.trans hend

theorem MayReconcile.showText (hm : bridge.MayReconcile view) : (bridge.showText view text).MayReconcile view := by
  refine ⟨fun target ht hne found hf hid => ?_, hm.2⟩
  obtain ⟨was, hw, hsame, hshown⟩ := mem_showText_mounted hf
  rw [hsame] at hid
  rw [if_neg (by rw [hid]; exact hne)] at hshown
  have hwas := hm.1 target ht hne was hw hid
  rw [← hsame, ← hshown] at hwas
  exact hwas

theorem Sound.refused (h : bridge.Sound) (hlive : bridge.destroyed = false) (hm : bridge.MayReconcile view)
    (hv : view < bridge.nextView) : ((bridge.showText view text).scheduleReconcile view).Sound := by
  refine ⟨h.tidy.showText.scheduleReconcile hv, fun _ other ho => ?_, fun hend => ?_⟩
  · rw [scheduleReconcile_mounted] at ho
    refine .scheduleReconcile h.tidy.showText hm.showText ho fun hne => ?_
    obtain ⟨was, hw, hid, hshown⟩ := mem_showText_mounted ho
    rw [if_neg (by rw [← hid]; exact hne)] at hshown
    exact (h.due hlive was hw).congr hid hshown rfl rfl rfl rfl
  · rw [scheduleReconcile_destroyed] at hend
    cases hlive.symm.trans hend

theorem Sound.halves {changes : List EditorChange} (hE : E.Lawful) (h : bridge.Sound) (hlive : bridge.destroyed = false)
    (ht : bridge.MayType view) (hb : accepts bridge.doc (inHalves changes) = true → Balanced changes)
    (hv : view < bridge.nextView) (hf : found ∈ bridge.mounted) (hfit : ChangesFit found.text.length 0 changes) :
    ((bridge.showText view (changed found.text 0 changes)).applyChangesInHalves view changes).Sound := by
  unfold applyChangesInHalves
  split
  · rename_i later hrun
    obtain ⟨⟨doc, rfl⟩, haccepts, happlied⟩ := transacts_editor hE hrun
    have hshown := ht.shown h hlive hf
    have htext := happlied rfl
    refine h.typed hlive ht ?_
    refine @inHalves_applied _ _ [] _ _ (hb haccepts) hfit (fun _ => rfl) ?_
    rw [nil_append, drop_zero, hshown]
    exact htext
  · rename_i later error hrun
    obtain ⟨⟨doc, rfl⟩, _⟩ := transacts_editor hE hrun
    exact h.typedRefused hlive ht hv

theorem Sound.transaction {changes : List EditorChange} (hE : E.Lawful) (h : bridge.Sound)
    (hc : bridge.Guarded (.transaction view changes)) : (bridge.transaction view changes).Sound := by
  unfold EditorBridge.transaction
  split
  · rename_i found hfound
    obtain ⟨hm, hid⟩ := (view?_some h.tidy).mp hfound
    split
    · exact h
    rename_i hopen
    simp only [not_or, Bool.not_eq_true, Bool.not_eq_false', Classical.not_not] at hopen
    obtain ⟨hmounted, hedit, hsome, hfit⟩ := hopen
    have hlive := live_of_canEdit hedit
    have hf : found ∈ bridge.mounted := mem_mounted.mpr ⟨hm, hmounted⟩
    have hg := hc hedit found hf hid hsome hfit
    have hv : view < bridge.nextView := hid ▸ h.tidy.fresh found hm
    have hdoc : (bridge.showText view (changed found.text 0 changes)).doc = bridge.doc := rfl
    unfold GuardedTransaction at hg
    unfold update
    rw [hdoc]
    cases hok : E.transact bridge.doc (adjusted 0 changes) with
    | ok result =>
      obtain ⟨doc, edits⟩ := result
      rw [hok] at hg
      have hadvance : (bridge.showText view (changed found.text 0 changes)).advance .editor doc edits =
          ({ bridge with doc } : EditorBridge E).showText view (changed found.text 0 changes) := if_pos (.inr rfl)
      simp only
      rw [hadvance]
      refine h.typed hlive hg ?_
      have happlied := (hE.transact hok).1
      rw [show E.text bridge.doc = found.text from (hg.shown h hlive hf).symm] at happlied
      exact @adjusted_applied _ _ [] _ _ hfit happlied
    | error error =>
      rw [hok] at hg
      cases error with
      | messageTooLarge => exact h.halves hE hlive hg.1 hg.2 hv hf hfit
      | tooManyOperations => exact h.halves hE hlive hg.1 hg.2 hv hf hfit
      | allocationExhausted => exact h.refused hlive hg hv
      | identifierTooDeep => exact h.refused hlive hg hv
      | documentTooLarge => exact h.refused hlive hg hv
      | other => exact h.crashed
  · exact h

end

/-! ## Mounting -/

section
variable {E : TextEngine} {bridge : EditorBridge E} {found : EditorView} {view : Nat} {text : JsString}

theorem mem_addView (h : found ∈ (bridge.addView text).mounted) :
    found ∈ bridge.mounted ∨ found = ⟨bridge.nextView, text, false, true⟩ := by
  obtain ⟨hm, hd⟩ := mem_mounted.mp h
  rcases mem_append.mp hm with hm | hm
  · exact .inl (mem_mounted.mpr ⟨hm, hd⟩)
  · exact .inr (mem_singleton.mp hm)

theorem Tidy.addView (h : bridge.Tidy) : (bridge.addView text).Tidy := by
  refine ⟨?_, fun found hm => ?_, ?_, ?_, h.reconcileTarget, h.patchTarget, fun target ht => ?_, fun target ht => ?_⟩
  · unfold EditorBridge.addView
    rw [map_append, map_singleton]
    refine nodup_append.mpr ⟨h.ids, nodup_singleton _, ?_⟩
    rintro id hid other hother rfl
    obtain ⟨found, hm, rfl⟩ := mem_map.mp hid
    exact absurd (mem_singleton.mp hother) (Nat.ne_of_lt (h.fresh found hm))
  · rcases mem_append.mp hm with hm | hm
    · exact Nat.lt_succ_of_lt (h.fresh found hm)
    · rw [mem_singleton.mp hm]
      exact Nat.lt_succ_self _
  · unfold EditorBridge.addView
    rw [count_append, h.reconciles]
    rfl
  · unfold EditorBridge.addView
    rw [count_append, h.patches]
    rfl
  · exact Nat.lt_succ_of_lt (h.reconcileView target ht)
  · exact Nat.lt_succ_of_lt (h.patchView target ht)

theorem Sound.mount (h : bridge.Sound) (hc : bridge.Guarded (.mount text)) : (bridge.mount text).Sound := by
  have htidy : (bridge.addView text).Tidy := h.tidy.addView
  unfold EditorBridge.mount attach
  refine ⟨htidy.scheduleReconcile (Nat.lt_succ_self _), fun hlive other ho => ?_, fun hend other ho => ?_⟩
  · rw [scheduleReconcile_destroyed] at hlive
    rw [scheduleReconcile_mounted] at ho
    refine .scheduleReconcile htidy ⟨fun target ht hne found hf hid => ?_, fun _ => pendingEdits_fresh h.tidy⟩ ho
      fun hne => ?_
    · rcases mem_addView hf with hf | rfl
      · exact (hc.1 hlive).1 target ht hne found hf hid
      · exact absurd hid.symm hne
    · rcases mem_addView ho with ho | rfl
      · exact (h.due hlive other ho).congr rfl rfl rfl rfl rfl behind_mount
      · exact absurd rfl hne
  · rw [scheduleReconcile_destroyed] at hend
    rw [scheduleReconcile_mounted] at ho
    rw [scheduleReconcile_text]
    rcases mem_addView ho with ho | rfl
    · exact h.frozen hend other ho
    · exact hc.2 hend

theorem mem_relisten (hf : found ∈ bridge.mounted) {other : EditorView} (h : other ∈ (bridge.relisten found).mounted) :
    ∃ was ∈ bridge.mounted, other.id = was.id ∧ other.text = was.text := by
  obtain ⟨hv, hd⟩ := mem_mounted.mp h
  rcases mem_append.mp hv with hv | hv
  · exact ⟨other, mem_mounted.mpr ⟨(mem_filter.mp hv).1, hd⟩, rfl, rfl⟩
  · rw [mem_singleton] at hv
    exact ⟨found, hf, by rw [hv], by rw [hv]⟩

theorem Tidy.relisten (h : bridge.Tidy) (hf : found ∈ bridge.views) : (bridge.relisten found).Tidy := by
  refine ⟨?_, fun other hv => ?_, h.3, h.4, h.5, h.6, h.7, h.8⟩
  · unfold EditorBridge.relisten
    rw [map_append, map_singleton]
    refine nodup_append.mpr ⟨h.ids.sublist (List.filter_sublist.map _), nodup_singleton _, ?_⟩
    rintro id hid other hother rfl
    obtain ⟨kept, hk, rfl⟩ := mem_map.mp hid
    rw [mem_filter, decide_eq_true_eq] at hk
    exact hk.2 (mem_singleton.mp hother)
  · rcases mem_append.mp hv with hv | hv
    · exact h.fresh other (mem_filter.mp hv).1
    · rw [mem_singleton.mp hv]
      exact h.fresh found hf

theorem Sound.becomeReady (h : bridge.Sound) (hc : bridge.Guarded (.ready view)) : (bridge.becomeReady view).Sound := by
  unfold EditorBridge.becomeReady attach
  split
  · rename_i found hfound
    obtain ⟨hm, rfl⟩ := (view?_some h.tidy).mp hfound
    split
    · exact h
    rename_i hopen
    simp only [not_or, Bool.not_eq_true, Bool.not_eq_false'] at hopen
    have hf : found ∈ bridge.mounted := mem_mounted.mpr ⟨hm, hopen.1⟩
    refine Sound.scheduleReconcile ⟨h.tidy.relisten hm, fun hlive other ho => ?_, fun hend other ho => ?_⟩
      (h.tidy.fresh found hm) fun hlive => ?_
    · obtain ⟨was, hw, hid, htext⟩ := mem_relisten hf ho
      exact (h.due hlive was hw).congr hid htext rfl rfl rfl rfl
    · obtain ⟨was, hw, _, htext⟩ := mem_relisten hf ho
      rw [htext]
      exact h.frozen hend was hw
    have hmay := hc hlive found hf rfl hopen.2
    refine ⟨fun target ht hne other ho hid => ?_, hmay.2⟩
    obtain ⟨was, hw, hsame, htext⟩ := mem_relisten hf ho
    have hdue := hmay.1 target ht hne was hw (hsame.symm.trans hid)
    rw [← hsame, ← htext] at hdue
    exact hdue
  · exact h

end

/-! ## Microtasks -/

section
variable {E : TextEngine} {bridge : EditorBridge E} {found : EditorView} {view : Nat} {text : JsString}
  {edits : List TextEdit} {rest : List Microtask}

theorem Sound.withQueue (h : bridge.Sound) (hq : bridge.microtasks = .mount view :: rest) :
    ({ bridge with microtasks := rest } : EditorBridge E).Sound := by
  have hr := h.tidy.reconciles
  have hp := h.tidy.patches
  have hdue := h.due
  rw [hq] at hr hp
  refine ⟨⟨h.tidy.ids, h.tidy.fresh, by simpa using hr, by simpa using hp, h.tidy.5, h.tidy.6, h.tidy.7, h.tidy.8⟩,
    fun hlive found hf => ?_, h.frozen⟩
  refine (h.due hlive found hf).congr rfl rfl rfl rfl rfl ?_
  rw [hq]
  rfl

theorem Sound.runMount (h : bridge.Sound) (hq : bridge.microtasks = .mount view :: rest)
    (hc : bridge.Guarded .microtask) : bridge.runMicrotask.Sound := by
  unfold runMicrotask
  rw [hq]
  simp only
  split
  · rename_i hany
    obtain ⟨found, hf, hid⟩ := any_eq_true.mp hany
    have hsame : found.id = view := by simpa using hid
    refine (h.withQueue hq).scheduleReconcile (hsame ▸ h.tidy.fresh found (mem_mounted.mp hf).1) fun hlive => ?_
    have hg := hc hlive
    unfold GuardedMicrotask at hg
    rw [hq] at hg
    have hmay := hg ⟨found, hf, hsame⟩
    refine ⟨hmay.1, fun hbehind => hmay.2 ?_⟩
    rw [hq]
    exact hbehind
  · exact h.withQueue hq

def reconcileTaken (bridge : EditorBridge E) (rest : List Microtask) : EditorBridge E :=
  { bridge with microtasks := rest, reconcileQueued := false, reconcileTarget := none }

def patchTaken (bridge : EditorBridge E) (rest : List Microtask) : EditorBridge E :=
  { bridge with microtasks := rest, editorPatchQueued := false, editorPatchTarget := none }

theorem Tidy.reconcileTaken (h : bridge.Tidy) (hq : bridge.microtasks = .reconcile :: rest) :
    (reconcileTaken bridge rest).Tidy ∧ rest.count .reconcile = 0 ∧ ∃ target, bridge.reconcileTarget = some target := by
  have hr := h.reconciles
  have hp := h.patches
  have ht := h.reconcileTarget
  rw [hq] at hr hp
  rw [count_cons_self] at hr
  cases hqueued : bridge.reconcileQueued with
  | false =>
    rw [hqueued] at hr
    cases hr
  | true =>
    rw [hqueued] at hr ht
    rw [count_cons_of_ne (by decide)] at hp
    have hzero : rest.count .reconcile = 0 := Nat.succ.inj hr
    refine ⟨⟨h.ids, h.fresh, hzero, hp, rfl, h.patchTarget, fun _ hm => (by cases hm), h.patchView⟩,
      hzero, Option.isSome_iff_exists.mp ht⟩

theorem Tidy.patchTaken (h : bridge.Tidy) (hq : bridge.microtasks = .patch :: rest) :
    (patchTaken bridge rest).Tidy ∧ rest.count .patch = 0 ∧ ∃ target, bridge.editorPatchTarget = some target := by
  have hr := h.reconciles
  have hp := h.patches
  have ht := h.patchTarget
  rw [hq] at hr hp
  rw [count_cons_self] at hp
  cases hqueued : bridge.editorPatchQueued with
  | false =>
    rw [hqueued] at hp
    cases hp
  | true =>
    rw [hqueued] at hp ht
    rw [count_cons_of_ne (by decide)] at hr
    have hzero : rest.count .patch = 0 := Nat.succ.inj hp
    refine ⟨⟨h.ids, h.fresh, hr, hzero, h.reconcileTarget, rfl, h.reconcileView, fun _ hm => (by cases hm)⟩,
      hzero, Option.isSome_iff_exists.mp ht⟩

theorem Sound.runReconcile (h : bridge.Sound) (hq : bridge.microtasks = .reconcile :: rest) : bridge.runMicrotask.Sound := by
  obtain ⟨htidy, _, target, ht⟩ := h.tidy.reconcileTaken hq
  have hrun : bridge.runMicrotask = if bridge.destroyed then reconcileTaken bridge rest
      else (reconcileTaken bridge rest).reconcile target.view target.text := by
    unfold runMicrotask
    rw [hq, ht]
    rfl
  rw [hrun]
  split
  · rename_i hend
    exact ⟨htidy, fun hlive => absurd (hlive.symm.trans hend) Bool.false_ne_true, h.frozen⟩
  rename_i hlive
  rw [Bool.not_eq_true] at hlive
  have hpending : ∀ found : EditorView, (reconcileTaken bridge rest).pendingEdits found.id =
      bridge.pendingEdits found.id := fun _ => rfl
  -- The edits of a patch that is not queued are none.
  have hrest : ∀ found : EditorView, (if behind bridge.microtasks then bridge.pendingEdits found.id else []) =
      bridge.pendingEdits found.id := by
    intro found
    split
    · rfl
    rename_i hnone
    refine (pendingEdits_none h.tidy ?_).symm
    rw [hq] at hnone ⊢
    rw [count_cons_of_ne (by decide), count_eq_zero]
    intro hm
    exact hnone (contains_iff_mem.mpr hm)
  have hdue : ∀ found ∈ bridge.mounted, applyTextEdits (if found.id = target.view then target.text else found.text)
      (bridge.pendingEdits found.id) = some bridge.text := by
    intro found hf
    have hwas := h.due hlive found hf
    unfold Due targeted at hwas
    rw [ht] at hwas
    by_cases hid : found.id = target.view
    · simp only [if_pos hid.symm] at hwas
      rw [hrest found] at hwas
      rw [if_pos hid]
      exact hwas
    · simp only [if_neg (Ne.symm hid)] at hwas
      rw [if_neg hid]
      exact hwas
  unfold EditorBridge.reconcile
  split
  · rename_i shown hshown
    refine ⟨htidy.showText, fun _ other ho => ?_, fun hend => absurd (hlive.symm.trans hend) Bool.false_ne_true⟩
    obtain ⟨found, hf, hid, htext⟩ := mem_showText_mounted ho
    rw [reconciled_eq] at htext
    have hfound := hdue found hf
    rw [← htext, ← hid] at hfound
    exact hfound
  · rename_i hnone
    refine ⟨htidy, fun _ other ho => ?_, fun hend => absurd (hlive.symm.trans hend) Bool.false_ne_true⟩
    have hne : other.id ≠ target.view := by
      intro hid
      have hsome := (view?_some htidy).mpr ⟨(mem_mounted.mp ho).1, hid⟩
      rw [hnone] at hsome
      cases hsome
    have hfound := hdue other ho
    rw [if_neg hne] at hfound
    exact hfound

/-- Edits that lead their view to the replica's text are replayed; others do no harm to a view that is reconciled
afterwards. -/
theorem Sound.replay (ht : bridge.Tidy) (hlive : bridge.destroyed = false) (hnone : bridge.editorPatchTarget = none)
    (hothers : ∀ found ∈ bridge.mounted, found.id ≠ view → bridge.Due found)
    (hown : ∀ found ∈ bridge.mounted, found.id = view → bridge.targeted view = some bridge.text ∨
      bridge.targeted view = none ∧ applyTextEdits found.text edits = some bridge.text)
    (hmay : ∀ found ∈ bridge.views, found.id = view → applyTextEdits found.text edits = none → bridge.MayReconcile view) :
    (replay view edits bridge).Sound := by
  have hpending : ∀ id, bridge.pendingEdits id = [] := by
    intro id
    unfold pendingEdits
    rw [hnone]
  have hended : ¬bridge.destroyed = true := by
    rw [hlive]
    exact Bool.false_ne_true
  induction edits generalizing bridge with
  | nil =>
    refine ⟨ht, fun _ found hf => ?_, fun hend => absurd hend hended⟩
    by_cases hid : found.id = view
    · show bridge.Due found
      unfold Due
      rw [hid, hpending, ite_self]
      rcases hown found hf hid with htargeted | ⟨htargeted, htext⟩
      · rw [htargeted]
        rfl
      · rw [htargeted]
        exact htext
    · exact hothers found hf hid
  | cons edit edits ih =>
    unfold EditorBridge.replay
    split
    · rename_i found hfound
      obtain ⟨hm, hid⟩ := (view?_some ht).mp hfound
      split
      · rename_i hunfit
        have hrefused : applyTextEdits found.text (edit :: edits) = none := by
          rw [applyTextEdits_cons]
          cases happlied : applyTextEdit found.text edit with
          | none => rfl
          | some later =>
            obtain ⟨_, horder, hend, _⟩ := applyTextEdit_some happlied
            omega
        have hview := hmay found hm hid hrefused
        refine ⟨ht.scheduleReconcile (hid ▸ ht.fresh found hm), fun _ other ho => ?_, fun hend => ?_⟩
        · rw [scheduleReconcile_mounted] at ho
          exact .scheduleReconcile ht hview ho (hothers other ho)
        · rw [scheduleReconcile_destroyed] at hend
          exact absurd hend hended
      · -- What the edit makes of the view's text is what the law makes of it.
        have hedit : applyTextEdit found.text edit = none ∨ applyTextEdit found.text edit =
            some (found.text.take edit.from_.toNat ++ edit.insert ++ found.text.drop edit.to_.toNat) := by
          cases happlied : applyTextEdit found.text edit with
          | none => exact .inl rfl
          | some later =>
            obtain ⟨_, _, _, hlater⟩ := applyTextEdit_some happlied
            exact .inr (by rw [hlater])
        have honly : ∀ was ∈ bridge.views, was.id = view → was = found := by
          intro was hw hsame
          exact inj_on_of_nodup_map ht.ids hw hm (hsame.trans hid.symm)
        refine ih ht.showText hlive hnone (fun other ho hne => ?_) (fun other ho hsame => ?_) (fun other ho hsame hfail => ?_)
          hpending hended
        · obtain ⟨was, hw, hwas, htext⟩ := mem_showText_mounted ho
          rw [if_neg (by rw [← hwas]; exact hne)] at htext
          exact (hothers was hw (hwas ▸ hne)).congr hwas htext rfl rfl rfl rfl
        · obtain ⟨was, hw, hwas, htext⟩ := mem_showText_mounted ho
          have hview : was.id = view := hwas ▸ hsame
          have hfoundwas := honly was (mem_mounted.mp hw).1 hview
          rw [if_pos hview] at htext
          rcases hown was hw hview with htargeted | ⟨htargeted, hdue⟩
          · exact .inl htargeted
          refine .inr ⟨htargeted, ?_⟩
          rw [hfoundwas, applyTextEdits_cons] at hdue
          rcases hedit with hedit | hedit
          · rw [hedit] at hdue
            cases hdue
          · rw [hedit] at hdue
            rw [htext]
            exact hdue
        · obtain ⟨was, hw, hwas, _, htext⟩ := mem_showText ho
          have hview : was.id = view := hwas ▸ hsame
          rw [if_pos hview] at htext
          refine (hmay found hm hid ?_).showText
          rw [applyTextEdits_cons]
          rcases hedit with hedit | hedit
          · rw [hedit]
            rfl
          · rw [hedit]
            rw [htext] at hfail
            exact hfail
    · rename_i habsent
      refine ⟨ht, fun _ found hf => ?_, fun hend => absurd hend hended⟩
      refine hothers found hf fun hid => ?_
      have hsome := (view?_some ht).mpr ⟨(mem_mounted.mp hf).1, hid⟩
      rw [habsent] at hsome
      cases hsome

theorem Sound.runPatch (h : bridge.Sound) (hq : bridge.microtasks = .patch :: rest) (hc : bridge.Guarded .microtask) :
    bridge.runMicrotask.Sound := by
  obtain ⟨htidy, hzero, target, ht⟩ := h.tidy.patchTaken hq
  have hrun : bridge.runMicrotask = if bridge.destroyed then patchTaken bridge rest
      else EditorBridge.replay target.view target.edits (patchTaken bridge rest) := by
    unfold runMicrotask
    rw [hq, ht]
    rfl
  rw [hrun]
  split
  · rename_i hend
    exact ⟨htidy, fun hlive => absurd (hlive.symm.trans hend) Bool.false_ne_true, h.frozen⟩
  rename_i hlive
  rw [Bool.not_eq_true] at hlive
  have hg := hc hlive
  unfold GuardedMicrotask at hg
  rw [hq] at hg
  have hbehind : behind bridge.microtasks = false := by
    rw [hq]
    exact @behind_no_patch rest hzero
  refine .replay htidy hlive rfl (fun found hf hne => ?_) (fun found hf hid => ?_) (fun found hf hid hfail => ?_)
  · have hdue := h.due hlive found hf
    have hother : bridge.pendingEdits found.id = [] := by
      unfold pendingEdits
      rw [ht]
      exact if_neg (Ne.symm hne)
    unfold Due at hdue ⊢
    rw [hother, ite_self] at hdue
    rw [show (patchTaken bridge rest).pendingEdits found.id = [] from rfl, ite_self]
    exact hdue
  · have hdue := h.due hlive found hf
    have hedits : bridge.pendingEdits found.id = target.edits := by
      unfold pendingEdits
      rw [ht]
      exact if_pos hid.symm
    unfold Due at hdue
    rw [hbehind, hedits] at hdue
    rw [← hid]
    show bridge.targeted found.id = _ ∨ bridge.targeted found.id = none ∧ _
    cases htargeted : bridge.targeted found.id with
    | none =>
      rw [htargeted] at hdue
      exact .inr ⟨rfl, hdue⟩
    | some text =>
      rw [htargeted] at hdue
      exact .inl hdue
  · have hmay := hg target ht found hf hid hfail
    refine ⟨fun held hheld hne other ho hother => ?_, fun _ => rfl⟩
    have hdue := hmay.1 held hheld hne other ho hother
    have hpending : bridge.pendingEdits other.id = [] := by
      unfold pendingEdits
      rw [ht]
      exact if_neg (by rw [hother]; exact Ne.symm hne)
    rw [hpending] at hdue
    exact hdue

end

/-! ## Runs -/

section
variable {E : TextEngine} {bridge : EditorBridge E}

theorem Sound.microtask (h : bridge.Sound) (hc : bridge.Guarded .microtask) : bridge.runMicrotask.Sound := by
  cases hq : bridge.microtasks with
  | nil =>
    unfold runMicrotask
    rw [hq]
    exact h
  | cons task rest =>
    cases task with
    | mount view => exact h.runMount hq hc
    | reconcile => exact h.runReconcile hq
    | patch => exact h.runPatch hq hc

theorem Sound.importRemote (hE : E.Lawful) (h : bridge.Sound) {artifact : E.Artifact}
    (hc : bridge.Guarded (.importRemote artifact)) : (bridge.importRemote artifact).Sound := by
  unfold EditorBridge.importRemote
  split
  · exact h
  rename_i hlive
  rw [Bool.not_eq_true] at hlive
  split
  · rename_i doc edits hok
    exact h.advance hlive (by decide) (hc hlive _ hok) (hE.importArtifact hok)
  · exact h

theorem Sound.converged (h : bridge.Sound) : bridge.Converged := by
  intro hreconcile hpatch view hv
  cases hend : bridge.destroyed with
  | true => exact h.frozen hend view hv
  | false =>
    have hr := h.tidy.reconcileTarget
    have hp := h.tidy.patchTarget
    rw [hreconcile, Option.isSome_eq_false_iff, Option.isNone_iff_eq_none] at hr
    rw [hpatch, Option.isSome_eq_false_iff, Option.isNone_iff_eq_none] at hp
    have hdue := h.due hend view hv
    unfold Due targeted pendingEdits at hdue
    rw [hr, hp] at hdue
    exact Option.some.inj hdue

theorem Sound.terminate (h : bridge.Sound) (hc : bridge.Guarded .terminate) :
    ({ bridge with destroyed := true, edit := false } : EditorBridge E).Sound := by
  refine ⟨⟨h.tidy.1, h.tidy.2, h.tidy.3, h.tidy.4, h.tidy.5, h.tidy.6, h.tidy.7, h.tidy.8⟩, fun hlive => (by cases hlive),
    fun _ view hv => ?_⟩
  cases hend : bridge.destroyed with
  | true => exact h.frozen hend view hv
  | false => exact h.converged (hc hend).1 (hc hend).2 view hv

theorem Sound.undo (hE : E.Lawful) (h : bridge.Sound) (hc : bridge.Guarded .undo) : bridge.undo.Sound := by
  unfold EditorBridge.undo
  split
  · rename_i hedit
    exact h.advance (live_of_canEdit hedit) (by decide) (hc hedit) (hE.undo bridge.doc)
  · exact h

theorem Sound.redo (hE : E.Lawful) (h : bridge.Sound) (hc : bridge.Guarded .redo) : bridge.redo.Sound := by
  unfold EditorBridge.redo
  split
  · rename_i hedit
    exact h.advance (live_of_canEdit hedit) (by decide) (hc hedit) (hE.redo bridge.doc)
  · exact h

theorem Sound.setText (hE : E.Lawful) (h : bridge.Sound) {markdown : JsString}
    (hc : bridge.Guarded (.setText markdown)) : (bridge.setText markdown).Sound := by
  unfold EditorBridge.setText
  split
  · rename_i hedit
    exact h.guardedChange hE (by decide) hedit hc
  · exact h

theorem Sound.replaceRange (hE : E.Lawful) (h : bridge.Sound) {start stop : Int} {insert : JsString}
    (hc : bridge.Guarded (.replaceRange start stop insert)) : (bridge.replaceRange start stop insert).Sound := by
  unfold EditorBridge.replaceRange
  split
  · rename_i hedit
    exact h.guardedChange hE (by decide) hedit hc
  · exact h

theorem Sound.step (hE : E.Lawful) (h : bridge.Sound) {event : BridgeEvent E} (hc : bridge.Guarded event) :
    (bridge.step event).Sound := by
  cases event with
  | mount text => exact h.mount hc
  | ready view => exact h.becomeReady hc
  | unmount view => exact h.dispose
  | transaction view changes => exact h.transaction hE hc
  | importRemote artifact => exact h.importRemote hE hc
  | undo => exact h.undo hE hc
  | redo => exact h.redo hE hc
  | setText markdown => exact h.setText hE hc
  | replaceRange start stop insert => exact h.replaceRange hE hc
  | microtask => exact h.microtask hc
  | permit edit =>
    exact ⟨⟨h.tidy.1, h.tidy.2, h.tidy.3, h.tidy.4, h.tidy.5, h.tidy.6, h.tidy.7, h.tidy.8⟩,
      fun hlive view hv => (h.due hlive view hv).congr rfl rfl rfl rfl rfl rfl, h.frozen⟩
  | terminate => exact h.terminate hc

theorem sound_opened {doc : E.Doc} {edit : Bool} : (opened doc edit : EditorBridge E).Sound := by
  refine ⟨⟨nodup_nil, ?_, rfl, rfl, rfl, rfl, ?_, ?_⟩, ?_, ?_⟩
  · exact fun _ hm => (by cases hm)
  · exact fun _ hm => (by cases hm)
  · exact fun _ hm => (by cases hm)
  · exact fun _ _ hm => (by cases hm)
  · exact fun _ _ hm => (by cases hm)

end

/-- Along every run whose steps are guarded, each mounted view shows the replica's text wherever no reconcile and no
patch is queued. -/
theorem editor_converges {E : TextEngine} (hE : E.Lawful) {doc : E.Doc} {edit : Bool} {events : List (BridgeEvent E)}
    (hg : Transition.Along step Guarded (opened doc edit) events) :
    (Transition.run step (opened doc edit) events).Converged :=
  (Transition.run_inv (I := Sound) (fun _ _ h hc => h.step hE hc) sound_opened hg).converged

/-! ## Runs that diverge -/

section
variable {E : TextEngine} (bridge : EditorBridge E)

instance decidableConverged : Decidable bridge.Converged :=
  inferInstanceAs (Decidable (_ → _ → ∀ view ∈ bridge.mounted, view.text = bridge.text))

instance decidableMayReconcile (view : Nat) : Decidable (bridge.MayReconcile view) :=
  inferInstanceAs (Decidable ((∀ target ∈ bridge.reconcileTarget, _ → ∀ found ∈ bridge.mounted, _ → _ = _) ∧ _))

instance decidableMayChange : Decidable bridge.MayChange :=
  inferInstanceAs (Decidable (∀ view ∈ bridge.mounted, (∀ other ∈ bridge.mounted, other.id = view.id) ∧ _))

instance decidableMayType (view : Nat) : Decidable (bridge.MayType view) :=
  inferInstanceAs (Decidable ((∀ other ∈ bridge.mounted, other.id = view) ∧ _ = _ ∧ _ = _))

instance decidableGuardedTransaction (view : Nat) (changes : List EditorChange) :
    Decidable (bridge.GuardedTransaction view changes) := by
  unfold GuardedTransaction
  split <;> infer_instance

instance decidableGuardedMicrotask : Decidable bridge.GuardedMicrotask := by
  unfold GuardedMicrotask
  split <;> infer_instance

instance decidableGuarded : ∀ event, Decidable (bridge.Guarded event)
  | .mount _ => inferInstanceAs (Decidable (_ ∧ _))
  | .ready view => inferInstanceAs (Decidable (_ → ∀ found ∈ bridge.mounted, _ → _ → bridge.MayReconcile view))
  | .transaction view changes =>
    inferInstanceAs (Decidable (_ → ∀ found ∈ bridge.mounted, _ → _ → _ → bridge.GuardedTransaction view changes))
  | .importRemote artifact =>
    inferInstanceAs (Decidable (_ → ∀ result ∈ E.importArtifact bridge.doc artifact, _ → bridge.MayChange))
  | .undo => inferInstanceAs (Decidable (_ → _ → _))
  | .redo => inferInstanceAs (Decidable (_ → _ → _))
  | .setText _ => inferInstanceAs (Decidable (_ → _ → _))
  | .replaceRange _ _ _ => inferInstanceAs (Decidable (_ → _ → _))
  | .microtask => inferInstanceAs (Decidable (_ → _))
  | .terminate => inferInstanceAs (Decidable (_ → _ ∧ _))
  | .unmount _ => isTrue trivial
  | .permit _ => isTrue trivial

end

namespace Views

def operations (ops : List TextEdit) : Nat := (ops.map fun op => (op.to_ - op.from_).toNat + op.insert.length).sum

/-- A document that is only its text, with the limit of an update and nothing to undo. -/
def plain (limit : Nat) : TextEngine where
  Doc := JsString
  Artifact := List TextEdit
  text := id
  transact := fun doc ops =>
    if limit < operations ops then .error .tooManyOperations
    else
      match applyTextEdits doc ops with
      | some later => .ok (later, ops)
      | none => .error .other
  importArtifact := fun doc edits => (applyTextEdits doc edits).map fun later => (later, edits)
  undo := fun doc => (doc, [])
  redo := fun doc => (doc, [])

theorem plain_lawful {limit : Nat} : (plain limit).Lawful := by
  refine ⟨fun {doc later ops edits} h => ?_, fun {doc later artifact edits} h => ?_, fun _ => rfl, fun _ => rfl⟩
  · unfold plain at h
    simp only at h
    split at h
    · cases h
    split at h
    · rename_i applied happlied
      cases h
      exact ⟨happlied, happlied⟩
    · cases h
  · obtain ⟨applied, happlied, hsame⟩ := Option.map_eq_some_iff.mp h
    cases hsame
    exact happlied

def after (limit : Nat) (events : List (BridgeEvent (plain limit))) : EditorBridge (plain limit) :=
  Transition.run step (@opened (plain limit) ([97, 98] : JsString) true) events

section
variable {limit : Nat}

def settled : List (BridgeEvent (plain limit)) := [.mount [], .microtask, .microtask]

def bothViews : List (BridgeEvent (plain limit)) := settled ++ settled ++ [.transaction 0 [⟨2, 2, [99]⟩]]

def inFlight : List (BridgeEvent (plain limit)) :=
  settled ++ [.importRemote [⟨0, 0, [120]⟩], .transaction 0 [⟨2, 2, [99]⟩], .microtask]

def twice : List (BridgeEvent (plain limit)) :=
  [.mount [], .importRemote [⟨0, 0, [120]⟩], .microtask, .microtask, .microtask]

def shifted : List (BridgeEvent (plain limit)) :=
  settled ++ [.transaction 0 [⟨0, 0, [120]⟩, ⟨2, 2, [121, 121, 121]⟩]]

def turns : List (BridgeEvent (plain limit)) :=
  settled ++ [.transaction 0 [⟨0, 0, [120]⟩, ⟨2, 2, [99]⟩], .importRemote [⟨0, 0, [121]⟩], .microtask, .ready 0,
    .microtask, .undo, .replaceRange 0 1 [97, 97], .microtask, .transaction 0 [⟨1, 1, [98, 98, 98, 98]⟩], .microtask]

end

theorem views_diverge : ¬(after 32768 bothViews).Converged ∧ ¬(after 32768 inFlight).Converged ∧
    ¬(after 32768 twice).Converged ∧ ¬(after 3 shifted).Converged := by
  decide +kernel

theorem turns_converge :
    (after 3 turns).text = [97, 97, 120, 97, 98, 99] ∧ (after 3 turns).microtasks = [] ∧
      (after 3 turns).Converged :=
  ⟨by decide +kernel, by decide +kernel, editor_converges plain_lawful (by decide +kernel)⟩

end Views

end EditorBridge

end Marks
