import Mathlib.Data.List.Sort
import Mathlib.Data.List.Dedup
import Marks.Rooms

/-! # An engine in the small

An instance of the engine: a replica is the log of the operations it received, each one character, and
an artifact is a tag with the operations in it. Its content is the whole replica. Below it a document
with one owner, and the events that open a room on it and bring a mutation to it. -/

namespace Marks

open List

/-- An operation as three bytes; `prior` is the number of its site's operations before it. -/
structure LogOp where
  site : UInt8
  prior : UInt8
  char : UInt8
deriving DecidableEq, Repr

namespace LogOp

def seq (op : LogOp) : Nat := op.prior.toNat + 1

def operation (op : LogOp) : Operation := ⟨op.site.toNat, op.seq⟩

def encode (op : LogOp) : Bytes := [op.site, op.prior, op.char]

end LogOp

def encodeOps (ops : List LogOp) : Bytes := ops.flatMap LogOp.encode

def decodeOps : Bytes → Option (List LogOp)
  | [] => some []
  | site :: prior :: char :: rest => (decodeOps rest).map (⟨site, prior, char⟩ :: ·)
  | _ => none

structure OpLog where
  ops : List LogOp
  distinct : ops.Pairwise fun a b => a.operation ≠ b.operation
deriving DecidableEq

namespace OpLog

def empty : OpLog := ⟨[], List.Pairwise.nil⟩

def record (doc : OpLog) (op : LogOp) : OpLog :=
  if h : ∃ known ∈ doc.ops, known.operation = op.operation then doc
  else
    ⟨doc.ops ++ [op], by
      refine pairwise_append.mpr ⟨doc.distinct, pairwise_singleton _ _, ?_⟩
      intro a ha b hb heq
      rw [mem_singleton.mp hb] at heq
      exact h ⟨a, ha, heq⟩⟩

def recordAll (doc : OpLog) (ops : List LogOp) : OpLog := ops.foldl record doc

/-- The operations of `after` past those of `doc`. -/
def since (doc after : OpLog) : List LogOp := after.ops.drop doc.ops.length

/-- The longest run of sequence numbers from `n + 1` on. -/
def contiguous (seqs : List Nat) : Nat → Nat → Nat
  | n, 0 => n
  | n, fuel + 1 => if seqs.contains (n + 1) then contiguous seqs (n + 1) fuel else n

def receipts (site : SiteId) (seqs : List Nat) : Receipts :=
  let prefix_ := contiguous seqs 0 seqs.length
  ⟨site, prefix_, (seqs.filter fun seq => prefix_ < seq).insertionSort fun a b => a ≤ b⟩

def seqsOf (doc : OpLog) (site : SiteId) : List Nat :=
  (doc.ops.filter fun op => op.site.toNat == site).map LogOp.seq

def sites (doc : OpLog) : List SiteId :=
  (doc.ops.map fun op => op.site.toNat).dedup.insertionSort fun a b => a ≤ b

def version (doc : OpLog) : Version := ⟨doc.sites.map fun site => receipts site (doc.seqsOf site)⟩

def text (doc : OpLog) : List Char :=
  (doc.ops.insertionSort fun a b => a.prior ≤ b.prior).map fun op => Char.ofNat op.char.toNat

def causallyClosed (doc : OpLog) : Bool := doc.version.receipts.all fun r => r.sparse.isEmpty

end OpLog

def encodeReceipts (r : Receipts) : Bytes :=
  UInt8.ofNat r.site :: UInt8.ofNat r.contiguous :: UInt8.ofNat r.sparse.length ::
    r.sparse.map UInt8.ofNat

def snapshotOps : Bytes → Option (List LogOp)
  | 2 :: rest => decodeOps rest
  | 3 :: rest => decodeOps rest
  | _ => none

def opLog : Engine where
  Doc := OpLog
  Update := List LogOp
  new := OpLog.empty
  version := OpLog.version
  text := OpLog.text
  len := fun doc => doc.ops.length
  retainedOperations := fun doc => doc.ops.length
  encodeVersion := fun version => version.receipts.flatMap encodeReceipts
  classify := fun
    | 1 :: _ => some .update
    | 2 :: _ => some .compactSnapshot
    | 3 :: _ => some .fullSnapshot
    | _ => none
  decode := fun
    | 1 :: rest => (decodeOps rest).map .update
    | 2 :: rest => (decodeOps rest).map fun ops => .compactSnapshot (OpLog.empty.recordAll ops).version
    | 3 :: rest => (decodeOps rest).map fun ops => .fullSnapshot (OpLog.empty.recordAll ops).version
    | _ => none
  operations := fun ops => ops.map LogOp.operation
  applyUpdate := fun doc ops =>
    let after := doc.recordAll ops
    let recorded := doc.since after
    some (after, ⟨after.version, if recorded = [] then none else some (1 :: encodeOps recorded),
      recorded.map LogOp.operation⟩)
  applyBytes := fun doc bytes =>
    match bytes with
    | 1 :: rest => (decodeOps rest).map doc.recordAll
    | _ => none
  applySnapshotBytes := fun doc bytes =>
    (snapshotOps bytes).map fun ops => (doc.recordAll ops, (doc.recordAll ops).version)
  exportUpdate := fun doc known =>
    some (1 :: encodeOps (doc.ops.filter fun op => !known.contains op.site.toNat op.seq))
  exportCompactSnapshot := fun doc =>
    if doc.causallyClosed then some (2 :: encodeOps doc.ops) else none
  exportFullSnapshot := fun doc => some (3 :: encodeOps doc.ops)
  pruneHistoryThrough := fun doc _ => some doc

/-! ## Recording -/

theorem decodeOps_encodeOps (ops : List LogOp) : decodeOps (encodeOps ops) = some ops := by
  induction ops with
  | nil => rfl
  | cons op ops ih =>
    have hcons : encodeOps (op :: ops) = op.site :: op.prior :: op.char :: encodeOps ops := rfl
    rw [hcons, decodeOps, ih]
    rfl

namespace OpLog

variable {doc after : OpLog}

theorem ext_ops (h : doc.ops = after.ops) : doc = after := by
  cases doc
  cases after
  simp only at h
  subst h
  rfl

theorem record_ops (op : LogOp) : ∃ recorded, (doc.record op).ops = doc.ops ++ recorded := by
  unfold record
  split
  · exact ⟨[], by rw [append_nil]⟩
  · exact ⟨[op], rfl⟩

theorem recordAll_ops (ops : List LogOp) :
    (doc.recordAll ops).ops = doc.ops ++ doc.since (doc.recordAll ops) := by
  have hprefix : ∃ recorded, (doc.recordAll ops).ops = doc.ops ++ recorded := by
    unfold recordAll
    induction ops generalizing doc with
    | nil => exact ⟨[], by rw [foldl_nil, append_nil]⟩
    | cons op ops ih =>
      obtain ⟨first, hfirst⟩ := record_ops op
      obtain ⟨rest, hrest⟩ := ih
      exact ⟨first ++ rest, by rw [foldl_cons, hrest, hfirst, append_assoc]⟩
  obtain ⟨recorded, hrecorded⟩ := hprefix
  rw [since, hrecorded, drop_left]

variable {ops : List LogOp}

theorem recordAll_since (h : after.ops = doc.ops ++ ops) :
    doc.recordAll ops = after := by
  induction ops generalizing doc with
  | nil =>
    rw [append_nil] at h
    exact ext_ops h.symm
  | cons op ops ih =>
    have hfresh : ¬ ∃ known ∈ doc.ops, known.operation = op.operation := by
      intro ⟨known, hmem, heq⟩
      have hd := after.distinct
      rw [h] at hd
      exact (pairwise_append.mp hd).2.2 known hmem op mem_cons_self heq
    have hrecord : (doc.record op).ops = doc.ops ++ [op] := by
      unfold record
      rw [dif_neg hfresh]
    refine ih ?_
    rw [hrecord, h, append_assoc, singleton_append]

theorem recordAll_same (h : doc.since (doc.recordAll ops) = []) :
    doc.recordAll ops = doc := by
  refine ext_ops ?_
  rw [recordAll_ops, h, append_nil]

theorem recordAll_again (ops : List LogOp) :
    doc.recordAll (doc.since (doc.recordAll ops)) = doc.recordAll ops :=
  recordAll_since (recordAll_ops ops)

/-! ## Versions -/

theorem contiguous_spec (seqs : List Nat) (n fuel : Nat) :
    n ≤ contiguous seqs n fuel ∧ ∀ seq, n < seq → seq ≤ contiguous seqs n fuel → seq ∈ seqs := by
  induction fuel generalizing n with
  | zero => exact ⟨Nat.le_refl n, fun seq h h' => absurd h' (Nat.not_le.mpr h)⟩
  | succ fuel ih =>
    unfold contiguous
    split
    · rename_i hmem
      obtain ⟨hle, hall⟩ := ih (n + 1)
      refine ⟨by omega, fun seq hlow hhigh => ?_⟩
      by_cases hseq : seq = n + 1
      · rw [hseq]
        simpa using hmem
      · exact hall seq (by omega) hhigh
    · exact ⟨Nat.le_refl n, fun seq h h' => absurd h' (Nat.not_le.mpr h)⟩

variable {site : SiteId}

theorem mem_receipts {seqs : List Nat} {seq : Nat} (hpos : 0 < seq) :
    (seq ≤ (receipts site seqs).contiguous ∨ seq ∈ (receipts site seqs).sparse) ↔ seq ∈ seqs := by
  simp only [receipts, mem_insertionSort, mem_filter, decide_eq_true_eq]
  obtain ⟨-, hall⟩ := contiguous_spec seqs 0 seqs.length
  constructor
  · intro h
    rcases h with h | h
    · exact hall seq hpos h
    · exact h.1
  · intro h
    by_cases hle : seq ≤ contiguous seqs 0 seqs.length
    · exact Or.inl hle
    · exact Or.inr ⟨h, by omega⟩

variable {op : LogOp}

theorem mem_sites (h : op ∈ doc.ops) : op.site.toNat ∈ doc.sites := by
  unfold sites
  rw [mem_insertionSort, mem_dedup]
  exact mem_map.mpr ⟨op, h, rfl⟩

theorem find_map_receipts (f : SiteId → Receipts) (hf : ∀ site, (f site).site = site)
    {sites : List SiteId} (h : site ∈ sites) :
    (sites.map f).find? (·.site == site) = some (f site) := by
  induction sites with
  | nil => cases h
  | cons head sites ih =>
    rw [map_cons, find?_cons, hf]
    by_cases heq : head = site
    · simp only [heq, beq_self_eq_true]
    have hne : (head == site) = false := by simpa using heq
    rw [hne]
    rcases mem_cons.mp h with h | h
    · exact absurd h.symm heq
    · exact ih h

theorem find_version (h : site ∈ doc.sites) :
    doc.version.find site = some (receipts site (doc.seqsOf site)) :=
  find_map_receipts (fun site => receipts site (doc.seqsOf site)) (fun _ => rfl) h

theorem mem_seqsOf (h : op ∈ doc.ops) : op.seq ∈ doc.seqsOf op.site.toNat := by
  refine mem_map.mpr ⟨op, mem_filter.mpr ⟨h, ?_⟩, rfl⟩
  simp

theorem contains_operation {op : Operation} (hpos : 0 < op.seq) :
    doc.version.contains op.origin op.seq = true ↔ ∃ known ∈ doc.ops, known.operation = op := by
  unfold Version.contains
  constructor
  · intro h
    cases hf : doc.version.find op.origin with
    | none => rw [hf] at h; cases h
    | some r =>
      rw [hf] at h
      have hr : r.site = op.origin := by simpa using find?_some hf
      have hmem : r ∈ doc.version.receipts := mem_of_find?_eq_some hf
      obtain ⟨site, -, rfl⟩ := mem_map.mp hmem
      have hsite : site = op.origin := hr
      rw [hsite] at h
      have hseq : op.seq ∈ doc.seqsOf op.origin := (mem_receipts hpos).mp (by simpa using h)
      obtain ⟨known, hk, hkseq⟩ := mem_map.mp hseq
      obtain ⟨hk, hksite⟩ := mem_filter.mp hk
      refine ⟨known, hk, ?_⟩
      unfold LogOp.operation
      rw [hkseq, show known.site.toNat = op.origin by simpa using hksite]
  · rintro ⟨known, hk, rfl⟩
    have hfind := find_version (mem_sites hk)
    have hsite : known.operation.origin = known.site.toNat := rfl
    rw [hsite, hfind]
    simpa using (mem_receipts hpos).mpr (mem_seqsOf hk)

theorem version_contains :
    doc.version.contains op.site.toNat op.seq = true ↔
      ∃ known ∈ doc.ops, known.operation = op.operation :=
  @contains_operation doc op.operation (Nat.succ_pos _)

theorem eq_of_version (h : after.ops = doc.ops ++ ops)
    (hv : after.version = doc.version) : after = doc := by
  refine ext_ops ?_
  cases ops with
  | nil => rw [h, append_nil]
  | cons op ops =>
    have hmem : op ∈ after.ops := by
      rw [h]
      exact mem_append_right _ mem_cons_self
    have hcontains : after.version.contains op.site.toNat op.seq = true :=
      version_contains.mpr ⟨op, hmem, rfl⟩
    rw [hv] at hcontains
    obtain ⟨known, hk, heq⟩ := version_contains.mp hcontains
    have hd := after.distinct
    rw [h] at hd
    exact absurd heq ((pairwise_append.mp hd).2.2 known hk op mem_cons_self)

end OpLog

/-! ## The laws -/

theorem snapshotOps_rebuilds (doc : OpLog) (tag : UInt8) (htag : tag = 2 ∨ tag = 3) :
    opLog.Rebuilds id (tag :: encodeOps doc.ops) doc := by
  have hrecord : OpLog.empty.recordAll doc.ops = doc := OpLog.recordAll_since rfl
  have hops : snapshotOps (tag :: encodeOps doc.ops) = some doc.ops := by
    rcases htag with rfl | rfl <;> exact decodeOps_encodeOps doc.ops
  refine ⟨doc, doc.version, ?_, rfl⟩
  show (snapshotOps (tag :: encodeOps doc.ops)).map _ = _
  rw [hops, Option.map_some]
  show some (OpLog.empty.recordAll doc.ops, (OpLog.empty.recordAll doc.ops).version) = _
  rw [hrecord]
  rfl

theorem opLog_lawful : opLog.Lawful id where
  version_congr := fun d d' h => congrArg OpLog.version h
  text_congr := fun d d' h => congrArg OpLog.text h
  update_unchanged := by
    intro d ops d' r h hj
    cases h
    have hnil : OpLog.since d (d.recordAll ops) = [] := by
      by_contra hne
      simp only [if_neg hne] at hj
      cases hj
    exact OpLog.recordAll_same hnil
  update_journal := by
    intro d ops d' r journal h hj doc hdoc
    cases h
    have hdoc' : doc = d := hdoc
    have hjournal : journal = 1 :: encodeOps (OpLog.since d (d.recordAll ops)) := by
      simp only at hj
      split at hj
      · cases hj
      · exact (Option.some.inj hj).symm
    refine ⟨d.recordAll ops, ?_, rfl⟩
    rw [hjournal, hdoc']
    show (decodeOps (encodeOps _)).map _ = _
    rw [decodeOps_encodeOps, Option.map_some]
    exact congrArg some (OpLog.recordAll_again ops)
  snapshot_unchanged := by
    intro d bytes d' v h hv
    obtain ⟨ops, -, hops⟩ := Option.map_eq_some_iff.mp h
    cases hops
    exact OpLog.eq_of_version (OpLog.recordAll_ops ops) hv
  compact_rebuilds := by
    intro d bytes h
    have hb : (if d.causallyClosed then some (2 :: encodeOps d.ops) else none) = some bytes := h
    split at hb
    · cases hb
      exact snapshotOps_rebuilds d 2 (Or.inl rfl)
    · cases hb
  full_rebuilds := by
    intro d bytes h
    cases h
    exact snapshotOps_rebuilds d 3 (Or.inr rfl)
  prune_content := fun d v d' h => (Option.some.inj h).symm

theorem opLog_deterministic : opLog.Deterministic id where
  update_congr := by
    intro d e ops d' r hde h
    have heq : d = e := hde
    exact ⟨d', r, by rw [← heq]; exact h, rfl, rfl, rfl⟩
  update_refused := by
    intro d e ops hde h
    have heq : d = e := hde
    rw [← heq]
    exact h

/-! ## A small document -/

/-- The limits of the test server, with the compaction threshold left open. -/
def smallEnv (compactEveryUpdates : Nat) : Env where
  engine := opLog
  config := ⟨1048576, 512, 67108864, 16, compactEveryUpdates, 32768, 64⟩
  sha256 := fun bytes => bytes
  full := fun _ _ => false
  retires := fun _ _ _ _ => none

def ownerSession : AuthenticatedSession := ⟨1, 1, 1, 1000000⟩

/-- A document owned by principal 1, who has one device and one session. -/
def ownedDocument : Database where
  auth :=
    ⟨[⟨1, none⟩], [⟨1, 1, true, none⟩], [⟨1, 1, 1, 1000000, none⟩], [],
      ⟨⟨.principal 1, 1, none⟩, false⟩, [], [], [], []⟩
  store := ⟨none, 0, 0, 0, 0, none, [], [], [], []⟩

theorem ownedDocument_created : Created ownedDocument := ⟨rfl, rfl, rfl, rfl⟩

def asking (ticket : TicketId) (call : Nat) : List Event :=
  [.authenticate 1 0, .route (.principalSession ownerSession none ticket [] 0),
    .admission ticket true (some ownerSession) 0, .join 0 none, .joinLookup call false]

/-- Behind `asking`, with no entry in the registry: a new task is spawned, hydrated and joined. -/
def opening (call : Nat) (task : TaskId) : List Event :=
  [.joinCheck call .ok, .joinInsert call false, .joinSend call, .hydrate task .ok, .receive task .ok 0]

/-- A mutation of one operation of `site`, after its `prior` ones, under an id of equal bytes. -/
def updateFrame (id site prior char : UInt8) : Bytes :=
  msgMutation :: (encodeMutation (List.replicate 16 id) .update [1, site, prior, char]).getD []

def staging (task : TaskId) (conn : ConnId) (data : List Bytes) : List Event :=
  data.map (.frame task conn) ++ [.receive task .ok 0] ++ data.tail.map (fun _ => .collect task) ++
    [.process task .ok 0] ++ data.map fun _ => .stage task .ok 0

/-- A leave is not acknowledged while the room's commit waits for the database, the entry is dropped, and
a second room is hydrated before the first one's rows and compaction become durable. -/
def overlapping : List Event :=
  asking 1 0 ++ opening 0 0 ++
    staging 0 1 [updateFrame 1 2 0 97, updateFrame 2 2 1 98, updateFrame 3 2 2 99, updateFrame 4 2 3 100] ++
    [.leave 0 1, .evict 0] ++ asking 2 1 ++ opening 1 1 ++ staging 1 1 [updateFrame 5 3 0 101] ++
    [.commit 0 .ok 0, .commit 1 .ok 0]

end Marks
