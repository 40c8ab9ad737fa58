import Marks.OpLog
import Marks.Session

/-! # A replica in the small

An instance of the client's replica on the operation logs: an edit appends one character at the replica's
own site, an artifact is a tag with operations, and a version lists what it covers. -/

namespace Marks

structure Tape where
  site : SiteId
  log : OpLog

namespace Tape

def taped : Bytes → Option (List LogOp)
  | 1 :: rest => decodeOps rest
  | 2 :: rest => decodeOps rest
  | 3 :: rest => decodeOps rest
  | _ => none

def next (doc : Tape) (char : UInt8) : LogOp :=
  ⟨UInt8.ofNat doc.site, UInt8.ofNat (doc.log.seqsOf doc.site).length, char⟩

def before (op op' : LogOp) : Prop :=
  op.site < op'.site ∨ op.site = op'.site ∧ op.prior ≤ op'.prior

instance : DecidableRel before := fun _ _ => inferInstanceAs (Decidable (_ ∨ _))

def version (doc : Tape) : Bytes :=
  (doc.log.ops.insertionSort before).flatMap fun op => [op.site, op.prior]

def covers : Bytes → Operation → Bool
  | site :: prior :: rest, op => (op.origin == site.toNat && op.seq == prior.toNat + 1) || covers rest op
  | _, _ => false

end Tape

def tape : Esbt where
  Doc := Tape
  Edit := UInt8
  Op := LogOp
  create := fun site => ⟨site, OpLog.empty⟩
  version := Tape.version
  edit := fun doc char =>
    let op := doc.next char
    if op.site.toNat = doc.site ∧ ¬ ∃ known ∈ doc.log.ops, known.operation = op.operation then
      some (⟨doc.site, doc.log.record op⟩, 1 :: encodeOps [op])
    else none
  load := fun doc bytes => (Tape.taped bytes).map fun ops => ⟨doc.site, doc.log.recordAll ops⟩
  exportUpdate := fun doc version =>
    .ok (1 :: encodeOps (doc.log.ops.filter fun op => !Tape.covers version op.operation))
  exportCompactSnapshot := fun doc => some (2 :: encodeOps doc.log.ops)
  exportFullSnapshot := fun doc => some (3 :: encodeOps doc.log.ops)
  pruneHistoryThrough := fun doc _ => some doc
  site := Tape.site
  name := LogOp.operation
  held := fun doc => doc.log.ops
  retained := fun doc => doc.log.ops
  carried := fun bytes => (Tape.taped bytes).getD []
  covers := Tape.covers

instance : DecidableEq tape.Op := inferInstanceAs (DecidableEq LogOp)

/-! ## The laws -/

namespace OpLog

variable {doc : OpLog} {op : LogOp} {ops : List LogOp}

theorem mem_record : op ∈ (doc.record op).ops ∨ ∃ known ∈ doc.ops, known.operation = op.operation := by
  unfold record
  split
  · next h => exact Or.inr h
  · exact Or.inl (by simp)

variable {known : LogOp}

theorem record_keeps (h : known ∈ doc.ops) : known ∈ (doc.record op).ops := by
  obtain ⟨recorded, hr⟩ : ∃ recorded, (doc.record op).ops = doc.ops ++ recorded := record_ops op
  rw [hr]
  exact List.mem_append_left _ h

theorem record_sub (h : known ∈ (doc.record op).ops) : known ∈ doc.ops ∨ known = op := by
  unfold record at h
  split at h
  · exact Or.inl h
  · simpa using h

theorem recordAll_keeps (h : known ∈ doc.ops) : known ∈ (doc.recordAll ops).ops := by
  rw [recordAll_ops]
  exact List.mem_append_left _ h

theorem recordAll_sub (h : known ∈ (doc.recordAll ops).ops) :
    known ∈ doc.ops ∨ known ∈ ops := by
  unfold recordAll at h
  induction ops generalizing doc with
  | nil => exact Or.inl h
  | cons op ops ih =>
    rcases ih h with h | h
    · rcases record_sub h with h | h
      · exact Or.inl h
      · exact Or.inr (h ▸ List.mem_cons_self)
    · exact Or.inr (List.mem_cons_of_mem op h)

theorem recordAll_names (h : op ∈ ops) :
    ∃ known ∈ (doc.recordAll ops).ops, known.operation = op.operation := by
  unfold recordAll
  induction ops generalizing doc with
  | nil => cases h
  | cons first ops ih =>
    rcases List.mem_cons.mp h with heq | h
    · subst heq
      have hfirst : ∃ known ∈ (doc.record op).ops, known.operation = op.operation := by
        have hcase : op ∈ (doc.record op).ops ∨ ∃ known ∈ doc.ops, known.operation = op.operation := mem_record
        rcases hcase with hmem | ⟨known, hk, heq⟩
        · exact ⟨op, hmem, rfl⟩
        · exact ⟨known, record_keeps hk, heq⟩
      obtain ⟨known, hk, hop⟩ := hfirst
      have hkept : known ∈ ((doc.record op).recordAll ops).ops := recordAll_keeps hk
      exact ⟨known, hkept, hop⟩
    · exact ih h

end OpLog

theorem tape_carried {tag : UInt8} (htag : tag = 1 ∨ tag = 2 ∨ tag = 3) (ops : List LogOp) :
    tape.carried (tag :: encodeOps ops) = ops := by
  rcases htag with rfl | rfl | rfl <;>
    simp only [tape, Tape.taped, decodeOps_encodeOps, Option.getD_some]

variable {doc' : Tape}

theorem tape_edit {doc : Tape} {char : UInt8} {bytes : Bytes}
    (h : tape.edit doc char = some (doc', bytes)) :
    (doc.next char).site.toNat = doc.site ∧
      (¬ ∃ known ∈ doc.log.ops, known.operation = (doc.next char).operation) ∧
      doc' = ⟨doc.site, doc.log.record (doc.next char)⟩ ∧ tape.carried bytes = [doc.next char] := by
  simp only [tape] at h
  split at h
  · next hc =>
    injection h with h
    injection h with hdoc hbytes
    refine ⟨hc.1, hc.2, hdoc.symm, ?_⟩
    rw [← hbytes]
    exact tape_carried (Or.inl rfl) _
  · simp at h

theorem tape_load {doc : Tape} {bytes : Bytes} (h : tape.load doc bytes = some doc') :
    doc' = ⟨doc.site, doc.log.recordAll (tape.carried bytes)⟩ := by
  obtain ⟨ops, hops, hdoc⟩ := Option.map_eq_some_iff.mp h
  rw [← hdoc]
  simp only [tape, hops, Option.getD_some]

theorem tape_origins : tape.Origins where
  site_create := fun _ => rfl
  site_edit := fun h => by rw [(tape_edit h).2.2.1]; rfl
  site_load := fun h => by rw [tape_load h]; rfl
  site_prune := fun h => by rw [← Option.some.inj h]
  edit_own := by
    intro doc char doc' bytes h op hop
    obtain ⟨hsite, -, -, hcarried⟩ := tape_edit h
    rw [hcarried] at hop
    rw [List.mem_singleton.mp hop]
    exact hsite
  export_carried := by
    intro doc version bytes h op
    injection h with h
    rw [← h, tape_carried (Or.inl rfl)]
    refine List.mem_filter.trans (and_congr_right fun _ => ?_)
    exact Iff.of_eq (Bool.not_eq_true' _)

theorem tape_replicates : tape.Replicates where
  carried_nil := rfl
  held_create := fun _ => rfl
  load_keeps := by
    intro doc bytes doc' h op hop
    rw [tape_load h]
    exact OpLog.recordAll_keeps hop
  load_held := by
    intro doc bytes doc' h op hop
    rw [tape_load h] at hop
    exact OpLog.recordAll_sub hop
  load_names := by
    intro doc bytes doc' h op hop
    rw [tape_load h]
    exact OpLog.recordAll_names hop
  edit_held := by
    intro doc char doc' bytes h op
    obtain ⟨-, hfresh, hdoc, hcarried⟩ := tape_edit h
    have hops : (doc.log.record (doc.next char)).ops = doc.log.ops ++ [doc.next char] := by
      simp only [OpLog.record, dif_neg hfresh]
    rw [hcarried, hdoc]
    show op ∈ (doc.log.record (doc.next char)).ops ↔ _
    rw [hops]
    exact List.mem_append
  edit_fresh := by
    intro doc char doc' bytes h op hop known hk heq
    obtain ⟨-, hfresh, -, hcarried⟩ := tape_edit h
    rw [hcarried] at hop
    exact hfresh ⟨known, hk, by rw [← List.mem_singleton.mp hop]; exact heq⟩
  edit_once := by
    intro doc char doc' bytes h op hop op' hop' _
    obtain ⟨-, -, -, hcarried⟩ := tape_edit h
    rw [hcarried] at hop hop'
    rw [List.mem_singleton.mp hop, List.mem_singleton.mp hop']
  update_held := by
    intro doc version bytes h op hop
    exact (((tape_origins.export_carried h) op).mp hop).1
  compact_held := by
    intro doc bytes h op hop
    rw [← Option.some.inj h, tape_carried (Or.inr (Or.inl rfl))] at hop
    exact hop
  full_held := by
    intro doc bytes h op
    rw [← Option.some.inj h, tape_carried (Or.inr (Or.inr rfl))]
    rfl
  full_loads := by
    intro doc bytes h site
    rw [← Option.some.inj h]
    simp only [tape, Tape.taped, decodeOps_encodeOps, Option.map_some, Option.isSome_some]
  prune_held := fun h => by rw [← Option.some.inj h]

end Marks
