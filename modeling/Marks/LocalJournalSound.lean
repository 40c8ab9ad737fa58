import Mathlib.Data.List.Nodup
import Marks.LocalJournal
import Marks.Runs

/-! # What a journal keeps

A record is read back as it was written, so that the pending list of a journal is the queue of its appended and
unacknowledged mutations. What was never a record is another matter: it is read as one in part or as none, and the next
write replaces it. -/

namespace Marks

open List

namespace LocalJournal

/-! ## Reading back -/

section
variable {stored : JsValue} {record fallback : ReplicaJournalRecord} {mutation : JournalMutation}
  {write : JournalWrite} {writes : List JournalWrite}

theorem normalizeMutation_toValue : normalizeMutation mutation.toValue = some mutation := by
  obtain ⟨⟨id, hex⟩, kind, bytes, createdAt⟩ := mutation
  have hid : ((JournalMutation.mk ⟨id, hex⟩ kind bytes createdAt).toValue.get "id").text? = some id := rfl
  have hbytes : ((JournalMutation.mk ⟨id, hex⟩ kind bytes createdAt).toValue.get "bytes").bytes? = some bytes := rfl
  have htime : ((JournalMutation.mk ⟨id, hex⟩ kind bytes createdAt).toValue.get "createdAt").number? = some createdAt := rfl
  have htruthy : (JournalMutation.mk ⟨id, hex⟩ kind bytes createdAt).toValue.truthy = true := rfl
  unfold normalizeMutation
  rw [hid, hbytes, htime, htruthy]
  cases kind with
  | update =>
    rw [show ((JournalMutation.mk ⟨id, hex⟩ .update bytes createdAt).toValue.get "kind").text? = some updateText from rfl]
    simp [hex]
  | snapshot =>
    have hne : snapshotText ≠ updateText := by decide
    rw [show ((JournalMutation.mk ⟨id, hex⟩ .snapshot bytes createdAt).toValue.get "kind").text? = some snapshotText from rfl]
    simp [hex, hne]

theorem persistedRole_text {role : Option PermissionRole} :
    persistedRole (role.elim .null fun role => .string role.text) = role := by
  cases role with
  | none => rfl
  | some role => cases role <;> decide

theorem normalizeRecord_toValue : normalizeRecord record.toValue = some record := by
  obtain ⟨siteId, role, snapshot, pending, ackedVersion, committedRevision, lastPruneAt⟩ := record
  have hpending : (pending.map JournalMutation.toValue).filterMap normalizeMutation = pending := by
    rw [filterMap_map]
    exact (filterMap_congr fun _ _ => normalizeMutation_toValue).trans filterMap_some
  have hacked : (ackedVersion.elim JsValue.null .bytes).bytes? = ackedVersion := by cases ackedVersion <;> rfl
  have hrevision : (committedRevision.elim JsValue.null .string).text? = committedRevision := by
    cases committedRevision <;> rfl
  show some (ReplicaJournalRecord.mk siteId (persistedRole (role.elim .null fun role => .string role.text)) snapshot
    ((pending.map JournalMutation.toValue).filterMap normalizeMutation) (ackedVersion.elim JsValue.null .bytes).bytes?
    (committedRevision.elim JsValue.null .string).text? lastPruneAt) = _
  rw [persistedRole_text, hpending, hacked, hrevision]

def pendingOf (stored : JsValue) : List JournalMutation := ((normalizeRecord stored).map (·.pending)).getD []

theorem normalizeRecord_perform (h : written stored write = some record) :
    normalizeRecord (perform stored write) = some record := by
  unfold perform
  rw [h]
  exact normalizeRecord_toValue

theorem perform_refused (h : written stored write = none) : perform stored write = stored := by
  unfold perform
  rw [h]
  rfl

end

/-! ## The queue -/

inductive Entry
  | appended (mutation : JournalMutation)
  | acknowledged (id : MutationId)
deriving DecidableEq, Repr

/-- The mutations that are never acknowledged behind their append, each where it was appended first. -/
def outstanding : List Entry → List JournalMutation
  | [] => []
  | .appended mutation :: rest =>
    if .acknowledged mutation.id ∈ rest then outstanding rest
    else mutation :: (outstanding rest).filter (·.id ≠ mutation.id)
  | .acknowledged _ :: rest => outstanding rest

/-- What a write itself adds. -/
def JournalWrite.entry : JournalWrite → List Entry
  | append _ mutation => if mutation.bytes = [] then [] else [.appended mutation]
  | checkpoint _ _ => []
  | acknowledge _ mutationId _ _ _ => [.acknowledged mutationId]

def entries (stored : JsValue) (write : JournalWrite) : List Entry :=
  if written stored write = none then []
  else (if normalizeRecord stored = none then write.fallback.pending.map .appended else []) ++ write.entry

def history : JsValue → List JournalWrite → List Entry
  | _, [] => []
  | stored, write :: writes => entries stored write ++ history (perform stored write) writes

section
variable {log more : List Entry} {mutation : JournalMutation} {id : MutationId}

theorem outstanding_nodup : ((outstanding log).map (·.id)).Nodup := by
  induction log with
  | nil => exact nodup_nil
  | cons entry log ih =>
    cases entry with
    | acknowledged id => exact ih
    | appended first =>
      unfold outstanding
      split
      · exact ih
      rw [map_cons, nodup_cons]
      refine ⟨fun hm => ?_, ih.sublist (List.filter_sublist.map _)⟩
      obtain ⟨other, hother, hid⟩ := mem_map.mp hm
      have hne := of_mem_filter hother
      exact absurd hid (by simpa using hne)

theorem outstanding_sublist : ((outstanding log).map Entry.appended).Sublist log := by
  induction log with
  | nil => exact List.Sublist.refl _
  | cons entry log ih =>
    cases entry with
    | acknowledged id => exact ih.cons _
    | appended first =>
      unfold outstanding
      split
      · exact ih.cons _
      · rw [map_cons]
        exact ((List.filter_sublist.map _).trans ih).cons_cons _

theorem outstanding_acknowledged :
    outstanding (log ++ [.acknowledged id]) = (outstanding log).filter (·.id ≠ id) := by
  induction log with
  | nil => rfl
  | cons entry log ih =>
    cases entry with
    | acknowledged other => exact ih
    | appended first =>
      rw [cons_append, outstanding, outstanding]
      by_cases hid : first.id = id
      · have hacked : Entry.acknowledged first.id ∈ log ++ [.acknowledged id] :=
          mem_append_right _ (mem_singleton.mpr (congrArg _ hid))
        rw [if_pos hacked, ih]
        split
        · rfl
        · rw [filter_cons_of_neg (by simp [hid]), filter_filter]
          refine filter_congr fun other _ => ?_
          simp [hid]
      · have hsame : (Entry.acknowledged first.id ∈ log ++ [.acknowledged id]) ↔ Entry.acknowledged first.id ∈ log := by
          simp [hid]
        simp only [hsame]
        split
        · exact ih
        rw [filter_cons_of_pos (by simpa using hid), ih, filter_filter, filter_filter]
        congr 1
        refine filter_congr fun other _ => ?_
        exact Bool.and_comm _ _

theorem outstanding_appended : outstanding (log ++ [.appended mutation]) =
    if (outstanding log).any (·.id == mutation.id) then outstanding log else outstanding log ++ [mutation] := by
  induction log with
  | nil => rfl
  | cons entry log ih =>
    cases entry with
    | acknowledged other => exact ih
    | appended first =>
      have hsame : (Entry.acknowledged first.id ∈ log ++ [.appended mutation]) ↔ Entry.acknowledged first.id ∈ log := by
        simp
      rw [cons_append, outstanding, outstanding]
      simp only [hsame]
      split
      · exact ih
      rw [ih]
      by_cases hid : first.id = mutation.id
      · rw [any_cons, beq_iff_eq.mpr hid, Bool.true_or, if_pos rfl]
        split
        · rfl
        · rw [filter_append, filter_cons_of_neg (by simp [hid]), filter_nil, append_nil]
      · have hany : ((outstanding log).filter (·.id ≠ first.id)).any (·.id == mutation.id) =
            (outstanding log).any (·.id == mutation.id) := by
          rw [any_filter]
          congr 1
          funext other
          by_cases hother : other.id = mutation.id
          · simp [hother, Ne.symm hid]
          · simp [hother]
        rw [any_cons, beq_eq_false_iff_ne.mpr hid, Bool.false_or, hany]
        split
        · rfl
        · rw [filter_append, filter_cons_of_pos (by simpa using Ne.symm hid), filter_nil]
          rfl

theorem outstanding_all {pending : List JournalMutation} (h : (pending.map (·.id)).Nodup) :
    outstanding (pending.map .appended) = pending := by
  induction pending with
  | nil => rfl
  | cons first pending ih =>
    rw [map_cons, nodup_cons] at h
    rw [map_cons, outstanding, if_neg (by simp), ih h.2, filter_eq_self.mpr]
    intro other hm
    have hne : other.id ≠ first.id := fun heq => h.1 (mem_map.mpr ⟨other, hm, heq⟩)
    simpa using hne

end

/-! ## The stored list is the queue -/

def Distinct (pending : List JournalMutation) : Prop := (pending.map (·.id)).Nodup

section
variable {stored : JsValue} {record fallback : ReplicaJournalRecord} {mutation : JournalMutation}
  {write : JournalWrite} {writes : List JournalWrite} {log : List Entry}

theorem appendMutation_pending (h : appendMutation fallback mutation = some record) :
    record.pending = if mutation.bytes = [] ∨ fallback.pending.any (·.id == mutation.id) then fallback.pending
      else fallback.pending ++ [mutation] := by
  unfold appendMutation at h
  by_cases hempty : mutation.bytes = []
  · rw [if_pos hempty] at h
    cases h
    rw [if_pos (Or.inl hempty)]
  rw [if_neg hempty] at h
  cases hfind : fallback.pending.find? (·.id == mutation.id) with
  | some existing =>
    rw [hfind] at h
    simp only at h
    split at h
    · cases h
    · cases h
      rw [if_pos (Or.inr (any_eq_true.mpr
        ⟨existing, mem_of_find?_eq_some hfind, find?_some hfind⟩))]
  | none =>
    rw [hfind] at h
    cases h
    rw [if_neg]
    rintro (hnil | hany)
    · exact hempty hnil
    · obtain ⟨existing, hm, hid⟩ := any_eq_true.mp hany
      exact absurd hid (by simpa using find?_eq_none.mp hfind existing hm)

theorem reused_refused {existing : JournalMutation} (hdistinct : Distinct fallback.pending) (hbytes : mutation.bytes ≠ [])
    (hm : existing ∈ fallback.pending) (hid : existing.id = mutation.id)
    (hdiffers : existing.kind ≠ mutation.kind ∨ existing.bytes ≠ mutation.bytes) :
    appendMutation fallback mutation = none := by
  unfold appendMutation
  rw [if_neg hbytes]
  cases hfind : fallback.pending.find? (·.id == mutation.id) with
  | none => exact absurd hid (by simpa using find?_eq_none.mp hfind existing hm)
  | some found =>
    have hfound : found.id = mutation.id := by simpa using find?_some hfind
    have hsame : found = existing :=
      inj_on_of_nodup_map hdistinct (mem_of_find?_eq_some hfind) hm (hfound.trans hid.symm)
    simp only
    rw [hsame, if_pos hdiffers]

theorem written_pending (hlog : (current stored write.fallback).pending = outstanding log)
    (h : written stored write = some record) : record.pending = outstanding (log ++ write.entry) := by
  cases write with
  | append fallback mutation =>
    rw [appendMutation_pending h, show (current stored fallback).pending = outstanding log from hlog,
      JournalWrite.entry]
    by_cases hempty : mutation.bytes = []
    · rw [if_pos (Or.inl hempty), if_pos hempty, append_nil]
    · rw [if_neg hempty, outstanding_appended]
      simp only [hempty, false_or]
  | checkpoint fallback exported =>
    obtain ⟨snapshot, _, rfl⟩ := Option.map_eq_some_iff.mp h
    rw [JournalWrite.entry, append_nil]
    exact hlog
  | acknowledge fallback mutationId acknowledgedVersion committedRevision exported =>
    obtain ⟨snapshot, _, rfl⟩ := Option.map_eq_some_iff.mp h
    rw [JournalWrite.entry, outstanding_acknowledged, ← hlog]
    rfl

theorem perform_pending (hlog : pendingOf stored = outstanding log) (hlogged : normalizeRecord stored = none → log = [])
    (hfallback : Distinct write.fallback.pending) :
    pendingOf (perform stored write) = outstanding (log ++ entries stored write) ∧
      (normalizeRecord (perform stored write) = none → log ++ entries stored write = []) := by
  unfold entries
  cases hwritten : written stored write with
  | none =>
    rw [perform_refused hwritten, if_pos rfl, append_nil]
    exact ⟨hlog, hlogged⟩
  | some record =>
    have hafter := normalizeRecord_perform hwritten
    rw [if_neg (by simp)]
    refine ⟨?_, fun hnone => ?_⟩
    · have hpending : pendingOf (perform stored write) = record.pending := by
        unfold pendingOf
        rw [hafter]
        rfl
      rw [hpending, ← append_assoc]
      refine written_pending ?_ hwritten
      cases hstored : normalizeRecord stored with
      | none =>
        rw [hlogged hstored, if_pos rfl, nil_append, outstanding_all hfallback, current, hstored]
        rfl
      | some found =>
        rw [if_neg (by simp), append_nil, ← hlog, current, pendingOf, hstored]
        rfl
    · rw [hafter] at hnone
      cases hnone

theorem run_pending (hlog : pendingOf stored = outstanding log) (hlogged : normalizeRecord stored = none → log = [])
    (hfallback : ∀ write ∈ writes, Distinct write.fallback.pending) :
    pendingOf (Transition.run perform stored writes) = outstanding (log ++ history stored writes) := by
  induction writes generalizing stored log with
  | nil =>
    rw [history, append_nil]
    exact hlog
  | cons write writes ih =>
    obtain ⟨hnext, hnone⟩ := perform_pending hlog hlogged (hfallback write mem_cons_self)
    rw [history, ← append_assoc]
    exact ih hnext hnone fun other hm => hfallback other (mem_cons_of_mem _ hm)

end

namespace Samples

def first : JournalMutation := ⟨⟨List.replicate 32 49, by decide⟩, .update, [1], 0⟩

def second : JournalMutation := ⟨⟨List.replicate 32 50, by decide⟩, .update, [2], 0⟩

def blank (role : Option PermissionRole) (pending : List JournalMutation) : ReplicaJournalRecord :=
  ⟨[50], role, [], pending, none, none, 0⟩

def writes : List JournalWrite :=
  [.append (blank none [first]) first, .append (blank none [second]) second,
    .acknowledge (blank none [first]) first.id [9] 1 (some [7]), .append (blank none [second]) second]

end Samples

/-! ## Opening what is there -/

def Vacant : JsValue → Prop
  | .undefined | .null => True
  | _ => False

def listsMutations (value : JsValue) : Bool :=
  (value.get "version").isNumber .three || (value.get "version").isNumber .two

def listed (value : JsValue) : JsValue := if listsMutations value then value.get "pending" else value.get "updates"

def Reads (value item : JsValue) (mutation : JournalMutation) : Prop :=
  if listsMutations value then normalizeMutation item = some mutation else item = .bytes mutation.bytes

/-- Opening loses nothing, and neither does what is written later, or the page does not open. -/
def FailClosed (value : JsValue) : Prop :=
  match readReplicaJournalForOpen (some value) with
  | .error _ => True
  | .ok none => Vacant value
  | .ok (some record) => value.get "snapshot" = .bytes record.snapshot ∧
      (∃ items, listed value = .array items ∧ List.Forall₂ (Reads value) items record.pending) ∧
      ∀ mutation ∈ record.pending, ∀ writes : List JournalWrite,
        (∀ write ∈ writes, .acknowledged mutation.id ∉ write.entry) →
          mutation ∈ pendingOf (Transition.run perform value writes)

/-- Every field that holds edits is as one of the versions writes it. -/
structure Intact (value : JsValue) : Prop where
  site : (value.get "siteId").text?.isSome
  snapshot : (value.get "snapshot").bytes?.isSome
  version : listsMutations value = true ∨ (value.get "version").isNumber .one = true
  listed : ∃ items, listed value = .array items ∧
    ∀ item ∈ items, if listsMutations value then (normalizeMutation item).isSome else item.bytes?.isSome

section
variable {value stored : JsValue} {record : ReplicaJournalRecord} {mutation : JournalMutation}
  {items : List JsValue} {write : JournalWrite} {writes : List JournalWrite}

/-! ### What a value is read as -/

theorem get_object {name : String} (h : value.get name ≠ .undefined) : value.truthy = true ∧ value.isObject = true := by
  cases value with
  | object fields => exact ⟨rfl, rfl⟩
  | _ => exact absurd rfl h

theorem text_of_get {name : String} {text : JsString} (h : (value.get name).text? = some text) :
    value.truthy = true ∧ value.isObject = true := by
  refine @get_object value name fun hnone => ?_
  rw [hnone] at h
  cases h

def readPending (value : JsValue) : List JournalMutation :=
  if listsMutations value then ((value.get "pending").items?.getD []).filterMap normalizeMutation
  else legacyMutations (((value.get "updates").items?.getD []).filterMap JsValue.bytes?)

theorem normalizeRecord_some (h : normalizeRecord value = some record) :
    (value.get "siteId").text? = some record.siteId ∧ (value.get "snapshot").bytes? = some record.snapshot ∧
      (listsMutations value = true ∨ (value.get "version").isNumber .one = true) ∧ record.pending = readPending value := by
  unfold normalizeRecord at h
  unfold readPending
  split at h
  · cases h
  split at h
  · rename_i siteId snapshot hsite hsnapshot
    simp only at h
    split at h
    · rename_i hversion
      cases h
      exact ⟨hsite, hsnapshot, Or.inl hversion, (if_pos hversion).symm⟩
    rename_i hversion
    split at h
    · rename_i hone
      cases h
      exact ⟨hsite, hsnapshot, Or.inr hone, (if_neg hversion).symm⟩
    · cases h
  · cases h

theorem Intact.normalizes (h : Intact value) : ∃ record, normalizeRecord value = some record := by
  obtain ⟨siteId, hsite⟩ := Option.isSome_iff_exists.mp h.site
  obtain ⟨snapshot, hsnapshot⟩ := Option.isSome_iff_exists.mp h.snapshot
  obtain ⟨htruthy, hobject⟩ := text_of_get hsite
  unfold normalizeRecord
  rw [htruthy, hobject, hsite, hsnapshot]
  simp only [Bool.not_true, Bool.or_self, Bool.false_eq_true, if_false]
  have hversions := h.version
  unfold listsMutations at hversions
  split
  · exact ⟨_, rfl⟩
  · rename_i hversion
    rw [if_pos (hversions.resolve_left hversion)]
    exact ⟨_, rfl⟩

/-! ### Lists -/

theorem forall₂_filterMap {α β : Type} {f : α → Option β} {l : List α} :
    List.Forall₂ (fun a b => f a = some b) l (l.filterMap f) ↔ ∀ a ∈ l, (f a).isSome := by
  constructor
  · intro h a ha
    induction l with
    | nil => cases ha
    | cons first l ih =>
      cases hfirst : f first with
      | none =>
        rw [filterMap_cons_none hfirst] at h
        have hlength := h.length_eq
        have hle := length_filterMap_le f l
        rw [length_cons] at hlength
        omega
      | some b =>
        rw [filterMap_cons_some hfirst] at h
        obtain ⟨_, hrest⟩ := forall₂_cons.mp h
        rcases mem_cons.mp ha with rfl | ha
        · rw [hfirst]
          rfl
        · exact ih hrest ha
  · intro h
    induction l with
    | nil => exact List.Forall₂.nil
    | cons first l ih =>
      obtain ⟨b, hb⟩ := Option.isSome_iff_exists.mp (h first mem_cons_self)
      rw [filterMap_cons_some hb]
      exact List.Forall₂.cons hb (ih fun a ha => h a (mem_cons_of_mem _ ha))

theorem forall₂_mapIdx {f : Nat → Bytes → JournalMutation} (hf : ∀ index bytes, (f index bytes).bytes = bytes)
    {updates : List Bytes} :
    List.Forall₂ (fun item mutation => item.bytes? = some mutation.bytes) items (updates.mapIdx f) ↔
      List.Forall₂ (fun item bytes => item.bytes? = some bytes) items updates := by
  induction updates generalizing items f with
  | nil => simp
  | cons bytes updates ih =>
    rw [mapIdx_cons]
    cases items with
    | nil => simp
    | cons item items =>
      rw [forall₂_cons, forall₂_cons, hf, ih fun index bytes => hf (index + 1) bytes]

theorem bytes_eq {bytes : Bytes} : value.bytes? = some bytes ↔ value = .bytes bytes := by
  cases value <;> simp [JsValue.bytes?]

theorem reads_pending (hlisted : listed value = .array items) :
    List.Forall₂ (Reads value) items (readPending value) ↔
      ∀ item ∈ items, if listsMutations value then (normalizeMutation item).isSome else item.bytes?.isSome := by
  unfold readPending listed at *
  by_cases hversion : listsMutations value = true
  · rw [if_pos hversion] at hlisted
    have hreads : Reads value = fun item mutation => normalizeMutation item = some mutation := by
      funext item mutation
      exact if_pos hversion
    simp only [hversion, if_true, hlisted, hreads, JsValue.items?, Option.getD_some]
    exact forall₂_filterMap
  · rw [if_neg hversion] at hlisted
    have hreads : Reads value = fun item mutation => item.bytes? = some mutation.bytes := by
      funext item mutation
      exact (if_neg hversion).trans (propext bytes_eq.symm)
    simp only [hversion, if_false, hlisted, hreads, JsValue.items?, Option.getD_some, Bool.false_eq_true]
    exact (forall₂_mapIdx fun _ _ => rfl).trans forall₂_filterMap

/-! ### What is written later -/

theorem written_keeps (hm : mutation ∈ pendingOf stored) (hnot : .acknowledged mutation.id ∉ write.entry) :
    mutation ∈ pendingOf (perform stored write) := by
  cases hwritten : written stored write with
  | none =>
    rw [perform_refused hwritten]
    exact hm
  | some record =>
    unfold pendingOf at hm ⊢
    rw [normalizeRecord_perform hwritten]
    cases hstored : normalizeRecord stored with
    | none =>
      rw [hstored] at hm
      cases hm
    | some found =>
      rw [hstored] at hm
      have hcurrent : ∀ fallback, current stored fallback = found := fun fallback => by
        unfold current
        rw [hstored]
        rfl
      cases write with
      | append fallback appended =>
        have happend : appendMutation found appended = some record := by
          rw [← hcurrent fallback]
          exact hwritten
        show mutation ∈ record.pending
        rw [appendMutation_pending happend]
        split
        · exact hm
        · exact mem_append_left _ hm
      | checkpoint fallback exported =>
        obtain ⟨snapshot, _, rfl⟩ := Option.map_eq_some_iff.mp hwritten
        show mutation ∈ (current stored fallback).pending
        rw [hcurrent]
        exact hm
      | acknowledge fallback mutationId acknowledgedVersion committedRevision exported =>
        obtain ⟨snapshot, _, rfl⟩ := Option.map_eq_some_iff.mp hwritten
        show mutation ∈ (current stored fallback).pending.filter fun other => other.id ≠ mutationId
        rw [hcurrent]
        refine mem_filter.mpr ⟨hm, decide_eq_true fun hid => hnot ?_⟩
        rw [hid]
        exact mem_cons_self

theorem run_keeps (hm : mutation ∈ pendingOf stored) (hnot : ∀ write ∈ writes, .acknowledged mutation.id ∉ write.entry) :
    mutation ∈ pendingOf (Transition.run perform stored writes) := by
  induction writes generalizing stored with
  | nil => exact hm
  | cons write writes ih =>
    exact ih (written_keeps hm (hnot write mem_cons_self)) fun other ho => hnot other (mem_cons_of_mem _ ho)

end

/-- Opening is fail-closed on a value exactly if there is none, or every field that holds edits is as a version of the
journal writes it. -/
theorem open_fail_closed_iff {value : JsValue} : FailClosed value ↔ Vacant value ∨ Intact value := by
  have hopen : readReplicaJournalForOpen (some value) = .ok (normalizeRecord value) := rfl
  unfold FailClosed
  rw [hopen]
  constructor
  · intro h
    cases hrecord : normalizeRecord value with
    | none =>
      rw [hrecord] at h
      exact Or.inl h
    | some record =>
      rw [hrecord] at h
      obtain ⟨hsite, hsnapshot, hversion, hpending⟩ := normalizeRecord_some hrecord
      obtain ⟨_, ⟨items, hlisted, hreads⟩, _⟩ := h
      rw [hpending] at hreads
      exact Or.inr ⟨by rw [hsite]; rfl, by rw [hsnapshot]; rfl, hversion, items, hlisted, (reads_pending hlisted).mp hreads⟩
  · rintro (hvacant | hintact)
    · have hnone : normalizeRecord value = none := by
        cases value with
        | undefined => rfl
        | null => rfl
        | _ => cases hvacant
      rw [hnone]
      exact hvacant
    · obtain ⟨record, hrecord⟩ := hintact.normalizes
      obtain ⟨_, hsnapshot, _, hpending⟩ := normalizeRecord_some hrecord
      obtain ⟨items, hlisted, hitems⟩ := hintact.listed
      rw [hrecord]
      refine ⟨bytes_eq.mp hsnapshot, ⟨items, hlisted, ?_⟩, fun mutation hm writes hnot => run_keeps ?_ hnot⟩
      · rw [hpending]
        exact (reads_pending hlisted).mpr hitems
      · unfold pendingOf
        rw [hrecord]
        exact hm

namespace Samples

/-- A record of this version with an entry whose id is too short. -/
def damaged : JsValue :=
  .object [("version", .three), ("siteId", .string [50]), ("role", .null), ("snapshot", .bytes [7]),
    ("pending", .array [first.toValue,
      .object [("id", .string [51]), ("kind", .string updateText), ("bytes", .bytes [3])]])]

def newer : JsValue :=
  .object [("version", .number 0x4010000000000000), ("siteId", .string [50]), ("snapshot", .bytes [7]),
    ("pending", .array [first.toValue])]

/-- Both open without an error, one without an edit and the other as if there were nothing, and the next checkpoint
replaces what is there. -/
theorem damaged_overwritten :
    readReplicaJournalForOpen (some damaged) = .ok (some ⟨[50], none, [7], [first], none, none, 0⟩) ∧
      ¬FailClosed damaged ∧
      readReplicaJournalForOpen (some newer) = .ok none ∧ ¬FailClosed newer ∧
      pendingOf (perform newer (.checkpoint (blank none []) (some [9]))) = [] := by
  have hdamaged : readReplicaJournalForOpen (some damaged) = .ok (some ⟨[50], none, [7], [first], none, none, 0⟩) := by
    decide +kernel
  have hnewer : readReplicaJournalForOpen (some newer) = .ok none := by decide +kernel
  refine ⟨hdamaged, ?_, hnewer, ?_, by decide +kernel⟩
  · unfold FailClosed
    rw [hdamaged]
    rintro ⟨_, ⟨items, hlisted, hreads⟩, _⟩
    cases hlisted
    cases hreads with
    | cons _ hrest => cases hrest
  · unfold FailClosed
    rw [hnewer]
    exact fun h => h

end Samples

/-! ## The authority a checkpoint leaves -/

def Carries (session : JournalSession) (record : ReplicaJournalRecord) : Prop :=
  record.role = session.permissionRole ∧ record.lastPruneAt = session.lastPruneAt ∧
    record.ackedVersion = session.lastAckedVersion

section
variable {stored : JsValue} {session : JournalSession} {record : ReplicaJournalRecord} {role : Option PermissionRole}
  {write : JournalWrite} {writes : List JournalWrite}

theorem perform_role (h : (normalizeRecord stored).map (·.role) = some role) :
    (normalizeRecord (perform stored write)).map (·.role) = some role := by
  cases hwritten : written stored write with
  | none =>
    rw [perform_refused hwritten]
    exact h
  | some record =>
    obtain ⟨found, hfound, rfl⟩ := Option.map_eq_some_iff.mp h
    have hcurrent : ∀ fallback, current stored fallback = found := fun fallback => by
      unfold current
      rw [hfound]
      rfl
    rw [normalizeRecord_perform hwritten, Option.map_some]
    congr 1
    cases write with
    | append fallback mutation =>
      have happend : appendMutation found mutation = some record := by
        rw [← hcurrent fallback]
        exact hwritten
      unfold appendMutation at happend
      split at happend
      · cases happend
        rfl
      split at happend
      · split at happend
        · cases happend
        · cases happend
          rfl
      · cases happend
        rfl
    | checkpoint fallback exported =>
      obtain ⟨snapshot, _, rfl⟩ := Option.map_eq_some_iff.mp hwritten
      show (current stored fallback).role = found.role
      rw [hcurrent]
    | acknowledge fallback mutationId acknowledgedVersion committedRevision exported =>
      obtain ⟨snapshot, _, rfl⟩ := Option.map_eq_some_iff.mp hwritten
      show (current stored fallback).role = found.role
      rw [hcurrent]

theorem run_role (h : (normalizeRecord stored).map (·.role) = some role) :
    (normalizeRecord (Transition.run perform stored writes)).map (·.role) = some role := by
  induction writes generalizing stored with
  | nil => exact h
  | cons write writes ih => exact ih (perform_role h)

theorem checkpoint_record {snapshot : Bytes} :
    normalizeRecord (session.checkpointJournal stored (some snapshot)) =
      some { current stored session.emptyRecord with snapshot } :=
  normalizeRecord_perform rfl

end

/-- The authority of the session is in the journal, and no page that is opened from it later may edit if the session might
not. -/
def Checkpointed (session : JournalSession) (stored : JsValue) : Prop :=
  (∃ record, normalizeRecord stored = some record ∧ Carries session record) ∧
    ∀ writes reopened, normalizeRecord (Transition.run perform stored writes) = some reopened →
      mayEdit (startRole true reopened) = true → mayEdit session.permissionRole = true

/-- A checkpoint leaves the session's authority in the journal exactly if there was no record, or it had it already. -/
theorem checkpoint_authority_iff {stored : JsValue} {session : JournalSession} {snapshot : Bytes} :
    Checkpointed session (session.checkpointJournal stored (some snapshot)) ↔
      ∀ record, normalizeRecord stored = some record → Carries session record := by
  have hrecord := @checkpoint_record stored session snapshot
  constructor
  · rintro ⟨⟨record, hafter, hcarries⟩, _⟩ found hfound
    rw [hrecord] at hafter
    cases hafter
    unfold current at hcarries
    rw [hfound] at hcarries
    exact hcarries
  · intro h
    have hcarries : Carries session { current stored session.emptyRecord with snapshot } := by
      unfold current
      cases hstored : normalizeRecord stored with
      | none => exact ⟨rfl, rfl, rfl⟩
      | some found => exact h found hstored
    refine ⟨⟨_, hrecord, hcarries⟩, fun writes reopened hreopened hedit => ?_⟩
    have hrole := @run_role _ session.permissionRole writes (by rw [hrecord, Option.map_some, hcarries.1])
    rw [hreopened, Option.map_some] at hrole
    unfold startRole at hedit
    rw [if_pos rfl, Option.some.inj hrole] at hedit
    split at hedit
    · cases hedit
    · exact hedit

namespace Samples

def editing : JournalSession := ⟨[50], some .editor, [], none, 0, 0⟩

/-- The role is taken away, and a checkpoint is made of it; a page that is opened afterwards may edit. -/
theorem revocation_lost :
    ¬Checkpointed (editing.applyPermissionRole (some .viewer))
        ((editing.applyPermissionRole (some .viewer)).checkpointJournal (blank (some .editor) []).toValue (some [9])) ∧
      (normalizeRecord ((editing.applyPermissionRole (some .viewer)).checkpointJournal
        (blank (some .editor) []).toValue (some [9]))).map (fun reopened => mayEdit (startRole true reopened)) = some true ∧
      (normalizeRecord (editing.enterTerminalRecovery.checkpointJournal
        (blank (some .editor) []).toValue (some [9]))).map (fun reopened => mayEdit (startRole true reopened)) = some true := by
  refine ⟨fun h => ?_, by decide +kernel, by decide +kernel⟩
  obtain ⟨⟨record, hrecord, hrole, _⟩, _⟩ := h
  have hafter : (normalizeRecord ((editing.applyPermissionRole (some .viewer)).checkpointJournal
      (blank (some .editor) []).toValue (some [9]))).map (·.role) = some (some .editor) := by decide +kernel
  rw [hrecord, Option.map_some, hrole] at hafter
  cases hafter

end Samples

end LocalJournal

end Marks
