import Mathlib.Data.List.Pairwise
import Marks.Assets
import Marks.Lists

/-! # What rows refer to is on the disk

A file whose hash is needed is there, or a removal that was cancelled has unlinked it and will put it back from its
private link. A removal that is not cancelled holds the gate of its hash, and no row refers to the hash then. After
a crash the sweep puts back what is missing from the private links it finds. -/

namespace Marks.Assets

open List

/-! ## Rows -/

namespace AssetTables

variable {db : AssetTables} {documentId : DocumentId} {hash hash' : Hash} {bytes : Nat}

theorem hasBlob_insert : (db.insert documentId hash bytes).hasBlob hash' = (db.hasBlob hash' || hash == hash') := by
  by_cases hblob : db.hasBlob hash = true
  · by_cases he : hash = hash'
    · simp [insert, hasBlob, ← he, show db.blobs.any (·.contentHash == hash) = true from hblob]
    · simp [insert, hasBlob, he, show db.blobs.any (·.contentHash == hash) = true from hblob]
  · simp [insert, hasBlob, show ¬ db.blobs.any (·.contentHash == hash) = true from hblob]

theorem references_of_existing (h : db.existing documentId hash = true) : db.references hash = true := by
  obtain ⟨row, hrow, he⟩ := any_eq_true.mp h
  exact any_eq_true.mpr ⟨row, hrow, (Bool.and_eq_true_iff.mp he).2⟩

theorem references_insert :
    (db.insert documentId hash bytes).references hash' = (db.references hash' || hash == hash') := by
  by_cases hrow : db.existing documentId hash = true
  · have hreferences := references_of_existing hrow
    by_cases he : hash = hash'
    · have hassets : (db.insert documentId hash bytes).assets = db.assets := if_pos hrow
      subst he
      simpa [references, hassets] using hreferences
    · simp [insert, references, hrow, he]
  · simp [insert, references, hrow]

theorem deleteBlob_assets : (db.deleteBlob hash).1.assets = db.assets := by
  unfold deleteBlob
  split
  · rfl
  · rfl

theorem hasBlob_deleteBlob :
    (db.deleteBlob hash).1.hasBlob hash' = (db.hasBlob hash' && (hash != hash' || db.references hash')) := by
  unfold deleteBlob
  split
  · rename_i hfree
    obtain ⟨-, hunreferenced⟩ := Bool.and_eq_true_iff.mp hfree
    by_cases he : hash = hash'
    · subst he
      rw [Bool.not_eq_true'] at hunreferenced
      simp [hasBlob, hunreferenced]
    have hother : ∀ row : BlobRow, (row.contentHash != hash && row.contentHash == hash') = (row.contentHash == hash') := by
      intro row
      by_cases hrow : row.contentHash = hash'
      · simp [hrow, Ne.symm he]
      · simp [hrow]
    simp [hasBlob, he, any_filter, hother]
  · rename_i hkept
    by_cases he : hash = hash'
    · subst he
      cases hblob : db.hasBlob hash with
      | false => simp
      | true =>
        rw [hblob, Bool.true_and, Bool.not_eq_true', Bool.not_eq_false] at hkept
        simp [hkept]
    · simp [he]

variable {deleted hashes : List Hash}

theorem deleteBlobs_assets : (db.deleteBlobs deleted hashes).1.assets = db.assets := by
  induction hashes generalizing db deleted with
  | nil => rfl
  | cons hash hashes ih => exact ih.trans deleteBlob_assets

theorem hasBlob_deleteBlobs : (db.deleteBlobs deleted hashes).1.hasBlob hash' =
    (db.hasBlob hash' && (!hashes.contains hash' || db.references hash')) := by
  induction hashes generalizing db deleted with
  | nil => simp [deleteBlobs]
  | cons hash hashes ih =>
    have hreferences : (db.deleteBlob hash).1.references hash' = db.references hash' := by
      unfold references
      rw [deleteBlob_assets]
    unfold deleteBlobs
    rw [ih, hreferences, hasBlob_deleteBlob, contains_cons]
    by_cases he : hash = hash'
    · subst he
      cases db.hasBlob hash <;> cases db.references hash <;> simp
    · have he' : (hash' == hash) = false := beq_eq_false_iff_ne.mpr (Ne.symm he)
      have hne : (hash != hash') = true := bne_iff_ne.mpr he
      simp [hne, he']

theorem purge_tied (h : ∀ hash, db.hasBlob hash = db.references hash) :
    (db.purge documentId).1.hasBlob hash = (db.purge documentId).1.references hash := by
  have hleft : (db.purge documentId).1.references hash =
      (db.assets.filter (·.documentId != documentId)).any (·.contentHash == hash) := by
    unfold references purge
    rw [deleteBlobs_assets]
  rw [hleft]
  refine hasBlob_deleteBlobs.trans ?_
  show (db.hasBlob hash && (_ || (db.assets.filter (·.documentId != documentId)).any (·.contentHash == hash))) = _
  cases hany : (db.assets.filter (·.documentId != documentId)).any (·.contentHash == hash) with
  | true =>
    obtain ⟨row, hrow, he⟩ := any_eq_true.mp hany
    have hreferenced : db.references hash = true :=
      any_eq_true.mpr ⟨row, (mem_filter.mp hrow).1, he⟩
    rw [h hash, hreferenced, Bool.or_true, Bool.and_true]
  | false =>
    rw [Bool.or_false, Bool.and_eq_false_iff]
    by_cases hreferenced : db.references hash = true
    · obtain ⟨row, hrow, he⟩ := any_eq_true.mp hreferenced
      right
      rw [Bool.not_eq_false', contains_iff_mem, mem_map]
      refine ⟨row, mem_filter.mpr ⟨hrow, ?_⟩, beq_iff_eq.mp he⟩
      by_contra hdocument
      have hmem : row ∈ db.assets.filter (·.documentId != documentId) :=
        mem_filter.mpr ⟨hrow, by simpa using hdocument⟩
      rw [any_eq_true.mpr ⟨row, hmem, he⟩] at hany
      cases hany
    · exact .inl ((h hash).trans (Bool.not_eq_true _ ▸ hreferenced))

theorem references_of_purge (h : (db.purge documentId).1.references hash = true) : db.references hash = true := by
  obtain ⟨row, hrow, he⟩ := any_eq_true.mp h
  unfold purge at hrow
  rw [deleteBlobs_assets] at hrow
  exact any_eq_true.mpr ⟨row, (mem_filter.mp hrow).1, he⟩

end AssetTables

/-! ## The invariant -/

def FileName.hash? : FileName → Option Hash
  | .content hash => some hash
  | .remove hash _ => some hash
  | .upload _ => none

namespace RemoveStage

def keeps : RemoveStage → Bool
  | .linked | .abandoned | .checked | .unlinked | .committed | .restoring | .restored => true
  | .queued | .started | .done _ => false

def live : RemoveStage → Bool
  | .queued | .started | .linked | .checked | .unlinked => true
  | .abandoned | .committed | .restoring | .restored | .done _ => false

def gone : RemoveStage → Bool
  | .unlinked | .restoring => true
  | .queued | .started | .linked | .abandoned | .checked | .committed | .restored | .done _ => false

theorem keeps_of_gone {stage : RemoveStage} (h : stage.gone = true) : stage.keeps = true := by
  cases stage with
  | unlinked | restoring => rfl
  | queued | started | linked | abandoned | checked | committed | restored | done => cases h

end RemoveStage

theorem isDone_remove {hash : Hash} {token : Removal} {stage : RemoveStage}
    (h : (Worker.remove hash token stage).isDone = true) : ∃ ok, stage = .done ok := by
  unfold Worker.isDone at h
  split at h
  · rename_i he
    cases he
  · rename_i ok he
    cases he
    exact ⟨ok, rfl⟩
  · cases h

def PutStage.published : PutStage → Bool
  | .linked | .done true => true
  | .queued | .existing | .absent | .created | .written | .duplicate | .done false => false

def Op.removing : Op → Option Nat
  | .upload _ _ (.removing w) => some w
  | .purge _ _ (.removing w) => some w
  | _ => none

def Op.putting : Op → Option Nat
  | .upload _ _ (.putting w) => some w
  | _ => none

def Op.isStored : Op → Bool
  | .upload _ _ .stored => true
  | _ => false

def Apart (digest : Bytes → Hash) (a b : Op) : Prop :=
  ∀ hash hash', a.guarded digest = some hash → b.guarded digest = some hash' → shard hash ≠ shard hash'

namespace AssetStore

section
variable (digest : Bytes → Hash) (s : AssetStore)

def Published (op : Op) : Prop :=
  op.isStored = true ∨ ∃ (w : Nat) (hash : Hash) (bytes : Bytes) (stage : PutStage),
    op.putting = some w ∧ s.workers[w]? = some (.put hash bytes stage) ∧ stage.published = true

def Needs (hash : Hash) : Prop :=
  s.db.hasBlob hash = true ∨ ∃ op ∈ s.ops, s.Published op ∧ op.guarded digest = some hash

def Pending (hash : Hash) : Prop :=
  ∃ (w : Nat) (stage : RemoveStage), s.workers[w]? = some (.remove hash .cancelled stage) ∧ stage.gone = true

def Backed (hash : Hash) : Prop :=
  (s.disk.read (.content hash)).isSome = true ∨ s.Pending hash ∨
    (s.phase ≠ .serving ∧ ∃ w, (s.disk.read (.remove hash w)).isSome = true)

structure Consistent : Prop where
  idle : s.phase ≠ .serving → s.ops = [] ∧ s.workers = []
  full : ∀ name content hash, s.disk.read name = some content → name.hash? = some hash → digest content = hash
  tied : ∀ hash, s.db.hasBlob hash = s.db.references hash
  gates : s.ops.Pairwise (Apart digest)
  puts : ∀ (w : Nat) (hash : Hash) (bytes : Bytes) (stage : PutStage),
    s.workers[w]? = some (.put hash bytes stage) →
    digest bytes = hash ∧ (stage = .written → s.disk.read (.upload w) = some bytes)
  putting : ∀ op ∈ s.ops, ∀ w, op.putting = some w →
    ∃ (hash : Hash) (bytes : Bytes) (stage : PutStage), s.workers[w]? = some (.put hash bytes stage) ∧
      op.guarded digest = some hash
  active : ∀ (w : Nat) (hash : Hash) (stage : RemoveStage),
    s.workers[w]? = some (.remove hash .active stage) → stage.live = true →
    ∃ op ∈ s.ops, op.removing = some w ∧ op.guarded digest = some hash
  committed : ∀ (w : Nat) (hash : Hash) (stage : RemoveStage),
    s.workers[w]? = some (.remove hash .committed stage) → stage.live = false
  unreferenced : ∀ op ∈ s.ops, op.removing.isSome = true → ∀ hash, op.guarded digest = some hash →
    s.db.references hash = false
  links : ∀ (w : Nat) (hash : Hash) (token : Removal) (stage : RemoveStage),
    s.workers[w]? = some (.remove hash token stage) → stage.keeps = true →
    (s.disk.read (.remove hash w)).isSome = true
  backed : ∀ hash, s.Needs digest hash → s.Backed hash
  swept : ∀ left, s.phase = .sweeping left →
    ∀ (hash : Hash) (w : Nat), (s.disk.read (.remove hash w)).isSome = true →
    .remove hash w ∈ left

def Quiescent : Prop := s.phase = .serving ∧ s.ops = [] ∧ ∀ worker ∈ s.workers, worker.isDone = true

def Stored (name : FileName) (hash : Hash) : Prop := ∃ content, s.disk.read name = some content ∧ digest content = hash

end

/-! ## Releasing a worker -/

variable {op' : Op}

section
variable {digest : Bytes → Hash} {s : AssetStore}

theorem published_removing {op : Op} (h : s.Published op) : op.removing = none := by
  rcases h with h | ⟨w, -, -, -, h, -⟩
  · unfold Op.isStored at h
    split at h
    · rfl
    · cases h
  · unfold Op.putting at h
    split at h
    · rfl
    · cases h

theorem Consistent.holder_unique (h : s.Consistent digest) {op : Op} (hop : op ∈ s.ops) (hop' : op' ∈ s.ops)
    {hash : Hash} (hg : op.guarded digest = some hash) (hg' : op'.guarded digest = some hash) : op = op' := by
  by_contra hne
  have hsymm : Std.Symm (Apart digest) := ⟨fun a b hab x y hx hy he => hab y x hy hx he.symm⟩
  exact h.gates.forall hop hop' hne hash hash hg hg' rfl

theorem Consistent.not_needed (h : s.Consistent digest) {op : Op} (hop : op ∈ s.ops) {hash : Hash} {w : Nat}
    (hr : op.removing = some w) (hg : op.guarded digest = some hash) : ¬ s.Needs digest hash := by
  rintro (hblob | ⟨op', hop', hp, hg'⟩)
  · rw [h.tied, h.unreferenced op hop (Option.isSome_of_eq_some hr) hash hg] at hblob
    cases hblob
  · rw [h.holder_unique hop hop' hg hg', published_removing hp] at hr
    cases hr

theorem Backed.mono {s' : AssetStore} {hash : Hash} (h : s.Backed hash) (hphase : s'.phase = s.phase)
    (hcontent : (s.disk.read (.content hash)).isSome = true → (s'.disk.read (.content hash)).isSome = true)
    (hpending : s.Pending hash → s'.Backed hash)
    (hlinks : ∀ w, (s.disk.read (.remove hash w)).isSome = true → (s'.disk.read (.remove hash w)).isSome = true) :
    s'.Backed hash := by
  rcases h with h | h | ⟨hdown, w, hw⟩
  · exact .inl (hcontent h)
  · exact hpending h
  · exact .inr (.inr ⟨hphase ▸ hdown, w, hlinks w hw⟩)

end

/-! ## Requests and their workers -/

variable {aborted : Bool} {worker : Worker}

theorem release_put {hash : Hash} {bytes : Bytes} {stage : PutStage}
    (h : worker.release aborted = .put hash bytes stage) :
    ∃ stage₀, worker = .put hash bytes stage₀ ∧ (stage = stage₀ ∨ stage = .done false) := by
  cases worker with
  | put hash₀ bytes₀ stage₀ =>
    simp only [Worker.release, Worker.put.injEq] at h
    obtain ⟨rfl, rfl, rfl⟩ := h
    refine ⟨stage₀, rfl, ?_⟩
    split
    · exact .inr rfl
    · exact .inl rfl
  | remove => cases h

theorem release_remove {hash : Hash} {token : Removal} {stage : RemoveStage}
    (h : worker.release aborted = .remove hash token stage) :
    token ≠ .active ∧ ∃ token₀ stage₀, worker = .remove hash token₀ stage₀ ∧
      (token = token₀ ∨ token = .cancelled) ∧ (stage = stage₀ ∨ stage = .done false) := by
  cases worker with
  | put => cases h
  | remove hash₀ token₀ stage₀ =>
    simp only [Worker.release, Worker.remove.injEq] at h
    obtain ⟨rfl, rfl, rfl⟩ := h
    refine ⟨?_, token₀, stage₀, rfl, ?_, ?_⟩
    · split
      · simp
      · assumption
    · split
      · exact .inr rfl
      · exact .inl rfl
    · split
      · exact .inr rfl
      · exact .inl rfl

/-- The workers of `s'` are those of `s`, some of them released. -/
def Handed (s s' : AssetStore) : Prop :=
  ∀ w : Nat, s'.workers[w]? = s.workers[w]? ∨
    ∃ aborted, s'.workers[w]? = (s.workers[w]?).map (Worker.release aborted)

section
variable {s s' : AssetStore} {w : Nat} {hash : Hash}

theorem handed_same (h : s'.workers = s.workers) : Handed s s' := fun _ => .inl (by rw [h])

theorem handed_release (h : s'.workers = (s.release w aborted).workers) : Handed s s' := by
  intro w'
  rw [h]
  unfold release
  rw [getElem?_modify]
  by_cases hw : w = w'
  · simp only [hw, if_true]
    exact .inr ⟨aborted, rfl⟩
  · simp only [hw, if_false]
    exact .inl (by simp)

theorem Handed.put (h : Handed s s') {bytes : Bytes} {stage : PutStage}
    (hput : s'.workers[w]? = some (.put hash bytes stage)) :
    ∃ stage₀, s.workers[w]? = some (.put hash bytes stage₀) ∧ (stage = stage₀ ∨ stage = .done false) := by
  rcases h w with hw | ⟨aborted, hw⟩
  · exact ⟨stage, hw ▸ hput, .inl rfl⟩
  rw [hput] at hw
  obtain ⟨worker, hworker, hr⟩ := Option.map_eq_some_iff.mp hw.symm
  obtain ⟨stage₀, rfl, hstage⟩ := release_put hr
  exact ⟨stage₀, hworker, hstage⟩

theorem Handed.put_kept (h : Handed s s') {bytes : Bytes} {stage : PutStage}
    (hput : s.workers[w]? = some (.put hash bytes stage)) :
    ∃ stage', s'.workers[w]? = some (.put hash bytes stage') := by
  rcases h w with hw | ⟨aborted, hw⟩
  · exact ⟨stage, hw ▸ hput⟩
  · rw [hput] at hw
    exact ⟨_, hw⟩

theorem Handed.remove (h : Handed s s') {token : Removal} {stage : RemoveStage}
    (hremove : s'.workers[w]? = some (.remove hash token stage)) :
    ∃ token₀ stage₀, s.workers[w]? = some (.remove hash token₀ stage₀) ∧ (token = token₀ ∨ token = .cancelled) ∧
      (stage = stage₀ ∨ stage = .done false) := by
  rcases h w with hw | ⟨aborted, hw⟩
  · exact ⟨token, stage, hw ▸ hremove, .inl rfl, .inl rfl⟩
  rw [hremove] at hw
  obtain ⟨worker, hworker, hr⟩ := Option.map_eq_some_iff.mp hw.symm
  obtain ⟨-, token₀, stage₀, rfl, htoken, hstage⟩ := release_remove hr
  exact ⟨token₀, stage₀, hworker, htoken, hstage⟩

theorem Handed.active (h : Handed s s') {stage : RemoveStage}
    (hremove : s'.workers[w]? = some (.remove hash .active stage)) :
    s.workers[w]? = some (.remove hash .active stage) ∧
      ¬ ∃ aborted, s'.workers[w]? = (s.workers[w]?).map (Worker.release aborted) := by
  have hkept : ¬ ∃ aborted, s'.workers[w]? = (s.workers[w]?).map (Worker.release aborted) := by
    rintro ⟨aborted, hw⟩
    rw [hremove] at hw
    obtain ⟨worker, -, hr⟩ := Option.map_eq_some_iff.mp hw.symm
    exact (release_remove hr).1 rfl
  rcases h w with hw | hw
  · exact ⟨hw ▸ hremove, hkept⟩
  · exact absurd hw hkept

theorem Handed.pending (h : Handed s s') (hp : s.Pending hash) : s'.Pending hash := by
  obtain ⟨w, stage, hw, hgone⟩ := hp
  refine ⟨w, stage, ?_, hgone⟩
  rcases h w with hw' | ⟨aborted, hw'⟩
  · rw [hw', hw]
  have hstarted : stage ≠ .queued := by
    intro he
    rw [he] at hgone
    cases hgone
  rw [hw', hw]
  simp [Worker.release, hstarted]

theorem Handed.published (h : Handed s s') {op : Op} (hp : s'.Published op) : s.Published op := by
  rcases hp with hp | ⟨w, hash, bytes, stage, hop, hput, hstage⟩
  · exact .inl hp
  · obtain ⟨stage₀, hput₀, rfl | rfl⟩ := h.put hput
    · exact .inr ⟨w, hash, bytes, stage, hop, hput₀, hstage⟩
    · cases hstage

end

variable {found : Worker} {w' : Nat}

section
variable {digest : Bytes → Hash} {s s' : AssetStore}

/-- Requests come, go and go on. One that is new has no worker, or one that has not begun, and has published only
what is needed already; a request that goes releases its removal. -/
theorem Consistent.regroup (h : s.Consistent digest) (hserving : s.phase = .serving) (hphase : s'.phase = s.phase)
    (hdb : s'.db = s.db) (hdisk : s'.disk = s.disk) (hhanded : Handed s s')
    (hgates : s'.ops.Pairwise (Apart digest))
    (hnew : ∀ op ∈ s'.ops, op ∈ s.ops ∨
      (∀ hash, op.guarded digest = some hash → op.removing.isSome = true → s.db.references hash = false) ∧
      (∀ w, op.putting = some w → ∃ (hash : Hash) (bytes : Bytes),
        s'.workers[w]? = some (.put hash bytes .queued) ∧ op.guarded digest = some hash) ∧
      (∀ hash, op.guarded digest = some hash → op.isStored = true → s.Needs digest hash))
    (hold : ∀ op ∈ s.ops, ∀ w, op.removing = some w →
      op ∈ s'.ops ∨ ∃ aborted, s'.workers[w]? = (s.workers[w]?).map (Worker.release aborted)) :
    s'.Consistent digest where
  idle hdown := absurd (hphase.trans hserving) hdown
  full := hdisk ▸ h.full
  tied := hdb ▸ h.tied
  gates := hgates
  puts w hash bytes stage hput := by
    obtain ⟨stage₀, hput₀, hstage⟩ := hhanded.put hput
    refine ⟨(h.puts w hash bytes stage₀ hput₀).1, ?_⟩
    rw [hdisk]
    intro hwritten
    rcases hstage with rfl | rfl
    · exact (h.puts w hash bytes stage hput₀).2 hwritten
    · cases hwritten
  putting op hop w hw := by
    rcases hnew op hop with hop | ⟨-, hputting, -⟩
    · obtain ⟨hash, bytes, stage, hput, hg⟩ := h.putting op hop w hw
      obtain ⟨stage', hput'⟩ := hhanded.put_kept hput
      exact ⟨hash, bytes, stage', hput', hg⟩
    · obtain ⟨hash, bytes, hput, hg⟩ := hputting w hw
      exact ⟨hash, bytes, _, hput, hg⟩
  active w hash stage hremove hlive := by
    obtain ⟨hremove₀, hkept⟩ := hhanded.active hremove
    obtain ⟨op, hop, hr, hg⟩ := h.active w hash stage hremove₀ hlive
    rcases hold op hop w hr with hop' | hreleased
    · exact ⟨op, hop', hr, hg⟩
    · exact absurd hreleased hkept
  committed w hash stage hremove := by
    obtain ⟨token₀, stage₀, hremove₀, htoken, hstage⟩ := hhanded.remove hremove
    rcases htoken with rfl | htoken
    · rcases hstage with rfl | rfl
      · exact h.committed w hash stage hremove₀
      · rfl
    · cases htoken
  unreferenced op hop hr hash hg := by
    rw [hdb]
    rcases hnew op hop with hop | ⟨hreferences, -, -⟩
    · exact h.unreferenced op hop hr hash hg
    · exact hreferences hash hg hr
  links w hash token stage hremove hkeeps := by
    rw [hdisk]
    obtain ⟨token₀, stage₀, hremove₀, -, rfl | rfl⟩ := hhanded.remove hremove
    · exact h.links w hash token₀ stage hremove₀ hkeeps
    · cases hkeeps
  backed hash hneeds := by
    have hneeds₀ : s.Needs digest hash := by
      rcases hneeds with hblob | ⟨op, hop, hp, hg⟩
      · exact .inl (hdb ▸ hblob)
      rcases hnew op hop with hop | ⟨-, hputting, hstored⟩
      · exact .inr ⟨op, hop, hhanded.published hp, hg⟩
      rcases hp with hp | ⟨w, hash', bytes, stage, hw, hput, hstage⟩
      · exact hstored hash hg hp
      obtain ⟨hash₁, bytes₁, hput₁, -⟩ := hputting w hw
      rw [hput] at hput₁
      cases hput₁
      cases hstage
    refine (h.backed hash hneeds₀).mono hphase ?_ (fun hp => .inr (.inl (hhanded.pending hp))) ?_
    · rw [hdisk]
      exact id
    · rw [hdisk]
      exact fun w => id
  swept left hsweeping := by
    rw [hphase, hserving] at hsweeping
    cases hsweeping

theorem Consistent.serving (h : s.Consistent digest) {i : Nat} {op : Op} (hop : s.ops[i]? = some op) :
    s.phase = .serving := by
  by_contra hdown
  rw [(h.idle hdown).1] at hop
  cases hop

section
variable {i : Nat} {op : Op}

theorem Consistent.leaves (h : s.Consistent digest) (hop : s.ops[i]? = some op) (hphase : s'.phase = s.phase)
    (hdb : s'.db = s.db) (hdisk : s'.disk = s.disk) (hhanded : Handed s s') (hops : s'.ops = s.ops.eraseIdx i)
    (hreleased : ∀ w, op.removing = some w → ∃ aborted, s'.workers[w]? = (s.workers[w]?).map (Worker.release aborted)) :
    s'.Consistent digest := by
  obtain ⟨before, after, hs, herase, -⟩ := Lists.getElem?_parts hop
  refine h.regroup (h.serving hop) hphase hdb hdisk hhanded ?_ ?_ ?_
  · rw [hops]
    exact h.gates.sublist (eraseIdx_sublist ..)
  · rw [hops]
    exact fun op' hop' => .inl (mem_of_mem_eraseIdx hop')
  intro op' hop' w hw
  rw [hs] at hop'
  rw [hops, herase]
  rcases mem_append.mp hop' with hop' | hop'
  · exact .inl (mem_append_left _ hop')
  · rcases mem_cons.mp hop' with rfl | hop'
    · exact .inr (hreleased w hw)
    · exact .inl (mem_append_right _ hop')

theorem Consistent.continues (h : s.Consistent digest) (hop : s.ops[i]? = some op) (hphase : s'.phase = s.phase)
    (hdb : s'.db = s.db) (hdisk : s'.disk = s.disk) (hhanded : Handed s s')
    (hops : s'.ops = s.ops.set i op')
    (hreleased : ∀ w, op.removing = some w → ∃ aborted, s'.workers[w]? = (s.workers[w]?).map (Worker.release aborted))
    (hguarded : ∀ hash, op'.guarded digest = some hash → op.guarded digest = some hash)
    (hreferences : ∀ hash, op'.guarded digest = some hash → op'.removing.isSome = true → s.db.references hash = false)
    (hputting : ∀ w, op'.putting = some w → ∃ (hash : Hash) (bytes : Bytes),
      s'.workers[w]? = some (.put hash bytes .queued) ∧ op'.guarded digest = some hash)
    (hstored : ∀ hash, op'.guarded digest = some hash → op'.isStored = true → s.Needs digest hash) :
    s'.Consistent digest := by
  obtain ⟨before, after, hs, -, hset⟩ := Lists.getElem?_parts hop
  have hgates := h.gates
  rw [hs, pairwise_append, pairwise_cons] at hgates
  obtain ⟨hbefore, ⟨hafter, hrest⟩, hacross⟩ := hgates
  refine h.regroup (h.serving hop) hphase hdb hdisk hhanded ?_ ?_ ?_
  · rw [hops, hset, pairwise_append, pairwise_cons]
    refine ⟨hbefore, ⟨fun b hb x y hx hy => hafter b hb x y (hguarded x hx) hy, hrest⟩, fun a ha b hb => ?_⟩
    rcases mem_cons.mp hb with rfl | hb
    · exact fun x y hx hy => hacross a ha op mem_cons_self x y hx (hguarded y hy)
    · exact hacross a ha b (mem_cons_of_mem _ hb)
  · intro a ha
    rw [hops] at ha
    rcases mem_or_eq_of_mem_set ha with ha | rfl
    · exact .inl ha
    · exact .inr ⟨hreferences, hputting, hstored⟩
  · intro a ha w hw
    rw [hs] at ha
    rw [hops, hset]
    rcases mem_append.mp ha with ha | ha
    · exact .inl (mem_append_left _ ha)
    · rcases mem_cons.mp ha with rfl | ha
      · exact .inr (hreleased w hw)
      · exact .inl (mem_append_right _ (mem_cons_of_mem _ ha))

section
variable {documentId : DocumentId} {reclaim : List Hash}

@[simp] theorem next_phase : (s.next i documentId reclaim).phase = s.phase := by
  unfold next
  split
  · rfl
  · rfl

@[simp] theorem next_db : (s.next i documentId reclaim).db = s.db := by
  unfold next
  split
  · rfl
  · rfl

@[simp] theorem next_disk : (s.next i documentId reclaim).disk = s.disk := by
  unfold next
  split
  · rfl
  · rfl

@[simp] theorem next_workers : (s.next i documentId reclaim).workers = s.workers := by
  unfold next
  split
  · rfl
  · rfl

end

theorem Consistent.goes_on (h : s.Consistent digest) (hop : s.ops[i]? = some op) (hphase : s'.phase = s.phase)
    (hdb : s'.db = s.db) (hdisk : s'.disk = s.disk) (hhanded : Handed s s') {documentId : DocumentId}
    {reclaim : List Hash} (hops : s'.ops = (s.next i documentId reclaim).ops)
    (hreleased : ∀ w, op.removing = some w → ∃ aborted, s'.workers[w]? = (s.workers[w]?).map (Worker.release aborted)) :
    s'.Consistent digest := by
  unfold next at hops
  split at hops
  · exact h.leaves hop hphase hdb hdisk hhanded hops hreleased
  have hwaiting : (Op.purge documentId reclaim .waiting).guarded digest = none := by
    cases reclaim with
    | nil => rfl
    | cons => rfl
  refine h.continues hop hphase hdb hdisk hhanded hops hreleased ?_ ?_ ?_ ?_
  · rw [hwaiting]
    nofun
  · rw [hwaiting]
    nofun
  · nofun
  · rw [hwaiting]
    nofun

end

theorem Consistent.receive (h : s.Consistent digest) (hserving : s.phase = .serving) {op : Op}
    (hguarded : op.guarded digest = none) (hputting : op.putting = none) :
    Consistent digest { s with ops := s.ops ++ [op] } := by
  refine h.regroup hserving rfl rfl rfl (handed_same rfl) ?_ ?_ (fun op hop w hw => .inl (mem_append_left _ hop))
  · rw [pairwise_append]
    refine ⟨h.gates, pairwise_singleton .., fun a _ b hb => ?_⟩
    cases mem_singleton.mp hb
    intro x y _ hy
    rw [hguarded] at hy
    cases hy
  · intro op' hop'
    rcases mem_append.mp hop' with hop' | hop'
    · exact .inl hop'
    · cases mem_singleton.mp hop'
      rw [hguarded, hputting]
      exact .inr ⟨nofun, nofun, nofun⟩

variable {config : AssetConfig}

theorem upload_consistent (h : s.Consistent digest) {documentId : DocumentId} {body : Bytes} :
    (s.upload config documentId body).Consistent digest := by
  unfold upload
  split
  · exact h
  · rename_i hserving
    rw [not_or, not_not] at hserving
    exact h.receive hserving.1 rfl rfl

theorem purge_consistent (h : s.Consistent digest) {documentId : DocumentId} :
    (s.purge documentId).Consistent digest := by
  unfold purge
  split
  · exact h
  · rename_i hserving
    exact h.receive (not_not.mp hserving) rfl rfl

theorem gateFree_apart {hash : Hash} (h : s.gateFree digest hash = true) {op : Op} (hop : op ∈ s.ops) {held : Hash}
    (hg : op.guarded digest = some held) : shard held ≠ shard hash := by
  have hop' := all_eq_true.mp h op hop
  rw [hg] at hop'
  simpa using hop'

theorem Consistent.locks (h : s.Consistent digest) {i : Nat} {op : Op} {hash : Hash} (hop : s.ops[i]? = some op)
    (hfree : s.gateFree digest hash = true) (hremoving : op.removing = none) (hguarded : op'.guarded digest = some hash)
    (hremoving' : op'.removing = none) (hputting : op'.putting = none) (hstored : op'.isStored = false) :
    (s.setOp i op').Consistent digest := by
  obtain ⟨before, after, hs, -, hset⟩ := Lists.getElem?_parts hop
  have hgates := h.gates
  rw [hs, pairwise_append, pairwise_cons] at hgates
  obtain ⟨hbefore, ⟨-, hafter⟩, hacross⟩ := hgates
  have hapart : ∀ a ∈ s.ops, ∀ held, a.guarded digest = some held → shard held ≠ shard hash :=
    fun a ha held hg => gateFree_apart hfree ha hg
  rw [hs] at hapart
  refine h.regroup (h.serving hop) rfl rfl rfl (handed_same rfl) ?_ ?_ ?_
  · show (s.ops.set i op').Pairwise _
    rw [hset, pairwise_append, pairwise_cons]
    refine ⟨hbefore, ⟨fun b hb x y hx hy => ?_, hafter⟩, fun a ha b hb => ?_⟩
    · cases hguarded.symm.trans hx
      exact (hapart b (mem_append_right _ (mem_cons_of_mem _ hb)) y hy).symm
    rcases mem_cons.mp hb with rfl | hb
    · intro x y hx hy
      cases hguarded.symm.trans hy
      exact hapart a (mem_append_left _ ha) x hx
    · exact hacross a ha b (mem_cons_of_mem _ hb)
  · intro a ha
    rcases mem_or_eq_of_mem_set ha with ha | rfl
    · exact .inl ha
    · rw [hremoving', hputting, hstored]
      exact .inr ⟨nofun, nofun, nofun⟩
  · intro a ha w hw
    show a ∈ s.ops.set i op' ∨ _
    rw [hs] at ha
    rw [hset]
    rcases mem_append.mp ha with ha | ha
    · exact .inl (mem_append_left _ ha)
    rcases mem_cons.mp ha with rfl | ha
    · rw [hremoving] at hw
      cases hw
    · exact .inl (mem_append_right _ (mem_cons_of_mem _ ha))

theorem lock_consistent (h : s.Consistent digest) {i : Nat} : (s.lock digest i).Consistent digest := by
  unfold lock
  split
  · rename_i documentId body hop
    split
    · rename_i hfree
      exact h.locks hop hfree rfl rfl rfl rfl rfl
    · exact h
  · rename_i documentId hash reclaim hop
    split
    · rename_i hfree
      exact h.locks hop hfree rfl rfl rfl rfl rfl
    · exact h
  · exact h

/-! ## Workers -/

theorem getElem?_spawn {w : Nat} (h : (s.spawn worker).workers[w]? = some found) :
    s.workers[w]? = some found ∨ w = s.workers.length ∧ found = worker := by
  rcases Nat.lt_trichotomy w s.workers.length with hw | hw | hw
  · exact .inl (by rw [← h]; exact (getElem?_append_left hw).symm)
  · refine .inr ⟨hw, ?_⟩
    simpa [spawn, hw] using h.symm
  have hlength : (s.workers ++ [worker]).length ≤ w := by
    rw [length_append, length_singleton]
    omega
  rw [show (s.spawn worker).workers[w]? = none from getElem?_eq_none hlength] at h
  cases h

theorem spawn_kept {w : Nat} (h : s.workers[w]? = some found) :
    (s.spawn worker).workers[w]? = some found := by
  obtain ⟨hw, -⟩ := List.getElem?_eq_some_iff.mp h
  exact (getElem?_append_left hw).trans h

theorem Consistent.spawns (h : s.Consistent digest) (hserving : s.phase = .serving)
    (hput : ∀ hash bytes stage, worker = .put hash bytes stage → digest bytes = hash ∧ stage = .queued)
    (hremove : ∀ hash token stage, worker = .remove hash token stage → token = .active ∧ stage = .queued ∧
      ∃ op ∈ s.ops, op.removing = some s.workers.length ∧ op.guarded digest = some hash) :
    (s.spawn worker).Consistent digest where
  idle hdown := absurd hserving hdown
  full := h.full
  tied := h.tied
  gates := h.gates
  puts w hash bytes stage hw := by
    rcases getElem?_spawn hw with hw | ⟨rfl, hworker⟩
    · exact h.puts w hash bytes stage hw
    · obtain ⟨hdigest, rfl⟩ := hput hash bytes stage hworker.symm
      exact ⟨hdigest, nofun⟩
  putting op hop w hw := by
    obtain ⟨hash, bytes, stage, hput, hg⟩ := h.putting op hop w hw
    exact ⟨hash, bytes, stage, spawn_kept hput, hg⟩
  active w hash stage hw hlive := by
    rcases getElem?_spawn hw with hw | ⟨rfl, hworker⟩
    · exact h.active w hash stage hw hlive
    · exact (hremove hash .active stage hworker.symm).2.2
  committed w hash stage hw := by
    rcases getElem?_spawn hw with hw | ⟨rfl, hworker⟩
    · exact h.committed w hash stage hw
    · cases (hremove hash .committed stage hworker.symm).1
  unreferenced := h.unreferenced
  links w hash token stage hw hkeeps := by
    rcases getElem?_spawn hw with hw | ⟨rfl, hworker⟩
    · exact h.links w hash token stage hw hkeeps
    · rw [(hremove hash token stage hworker.symm).2.1] at hkeeps
      cases hkeeps
  backed hash hneeds := by
    have hneeds₀ : s.Needs digest hash := by
      rcases hneeds with hblob | ⟨op, hop, hp | ⟨w, hash', bytes, stage, hw, hput', hstage⟩, hg⟩
      · exact .inl hblob
      · exact .inr ⟨op, hop, .inl hp, hg⟩
      rcases getElem?_spawn hput' with hput' | ⟨rfl, hworker⟩
      · exact .inr ⟨op, hop, .inr ⟨w, hash', bytes, stage, hw, hput', hstage⟩, hg⟩
      · obtain ⟨-, rfl⟩ := hput hash' bytes stage hworker.symm
        cases hstage
    refine (h.backed hash hneeds₀).mono rfl id ?_ (fun w => id)
    rintro ⟨w, stage, hw, hgone⟩
    exact .inr (.inl ⟨w, stage, spawn_kept hw, hgone⟩)
  swept := h.swept

variable {allowed : Bool}

theorem check_consistent (h : s.Consistent digest) {i : Nat} :
    (s.check digest config i allowed).Consistent digest := by
  unfold check
  split
  · rename_i documentId body hop
    split
    · exact h.leaves hop rfl rfl rfl (handed_same rfl) rfl nofun
    -- the worker is there before the request waits for it
    have hspawned : (s.spawn (.put (digest body) body .queued)).Consistent digest :=
      h.spawns (h.serving hop) (fun _ _ _ he => by cases he; exact ⟨rfl, rfl⟩) nofun
    refine hspawned.continues hop rfl rfl rfl (handed_same rfl) rfl nofun (fun _ => id) nofun ?_ nofun
    intro w hw
    cases hw
    exact ⟨digest body, body, by simp [setOp, spawn], rfl⟩
  · rename_i documentId body hop
    split
    · exact h.leaves hop rfl rfl rfl (handed_same rfl) rfl nofun
    rename_i hchecked
    rw [Bool.or_eq_true, not_or, Bool.not_eq_true, Bool.not_eq_true] at hchecked
    have hlocked : (s.setOp i (.upload documentId body (.removing s.workers.length))).Consistent digest := by
      refine h.continues hop rfl rfl rfl (handed_same rfl) rfl nofun (fun _ => id) ?_ nofun nofun
      intro hash hg _
      cases hg
      exact hchecked.2
    refine hlocked.spawns (h.serving hop) nofun ?_
    intro hash token stage he
    cases he
    exact ⟨rfl, rfl, _, mem_set (List.getElem?_eq_some_iff.mp hop).1 _, rfl, rfl⟩
  · rename_i documentId hash reclaim hop
    split
    · exact h.goes_on hop next_phase next_db next_disk (handed_same next_workers) rfl nofun
    rename_i hchecked
    rw [Bool.or_eq_true, not_or, Bool.not_eq_true, Bool.not_eq_true] at hchecked
    have hlocked :
        (s.setOp i (.purge documentId (hash :: reclaim) (.removing s.workers.length))).Consistent digest := by
      refine h.continues hop rfl rfl rfl (handed_same rfl) rfl nofun (fun _ => id) ?_ nofun nofun
      intro hash' hg _
      cases hg
      exact hchecked.2
    refine hlocked.spawns (h.serving hop) nofun ?_
    intro hash' token stage he
    cases he
    exact ⟨rfl, rfl, _, mem_set (List.getElem?_eq_some_iff.mp hop).1 _, rfl, rfl⟩
  · exact h

theorem released {w : Nat} (hworkers : s'.workers = (s.release w aborted).workers)
    (hw : some w = some w') : ∃ aborted, s'.workers[w']? = (s.workers[w']?).map (Worker.release aborted) := by
  cases hw
  refine ⟨aborted, ?_⟩
  rw [hworkers]
  unfold release
  simp

theorem next_ops {i w : Nat} {documentId : DocumentId} {reclaim : List Hash} :
    ((s.release w aborted).next i documentId reclaim).ops = (s.next i documentId reclaim).ops := by
  unfold next
  split
  · rfl
  · rfl

section

variable (h : s.Consistent digest)
include h

theorem settle_consistent {i : Nat} : (s.settle i).Consistent digest := by
  unfold settle
  split
  · rename_i documentId body w hop
    split
    · rename_i hash bytes ok hput
      split
      · rename_i hok
        refine h.continues hop rfl rfl rfl (handed_same rfl) rfl nofun (fun _ => id) nofun nofun ?_
        intro hash' hg _
        refine .inr ⟨_, mem_of_getElem? hop, .inr ⟨w, hash, bytes, _, rfl, hput, ?_⟩, hg⟩
        rw [hok]
        rfl
      · exact h.leaves hop rfl rfl rfl (handed_same rfl) rfl nofun
    · exact h
  · rename_i w hop
    split
    · exact h.leaves hop rfl rfl rfl (handed_release rfl) rfl (fun _ => released rfl)
    · exact h
  · rename_i documentId hash reclaim w hop
    split
    · exact h.goes_on hop next_phase next_db next_disk (handed_release next_workers) next_ops (fun _ => released next_workers)
    · exact h
  · exact h

theorem expire_consistent {i : Nat} :
    (s.expire i aborted).Consistent digest := by
  unfold expire
  split
  · rename_i hop
    exact h.leaves hop rfl rfl rfl (handed_release rfl) rfl nofun
  · rename_i hop
    exact h.leaves hop rfl rfl rfl (handed_release rfl) rfl (fun _ => released rfl)
  · rename_i hop
    exact h.goes_on hop next_phase next_db next_disk (handed_release next_workers) next_ops (fun _ => released next_workers)
  · exact h

theorem leave_consistent {i : Nat} : (s.leave i).Consistent digest := by
  unfold leave
  split
  · rename_i hop
    exact h.leaves hop rfl rfl rfl (handed_release rfl) rfl (fun _ => released rfl)
  · rename_i hop
    exact h.leaves hop rfl rfl rfl (handed_release rfl) rfl (fun _ => released rfl)
  rename_i hupload hpurge
  cases hop : s.ops[i]? with
  | none =>
    have hsame : s.finish i = s := by
      unfold finish
      rw [eraseIdx_of_length_le (List.getElem?_eq_none_iff.mp hop)]
    rw [hsame]
    exact h
  | some op =>
    have hremoving : op.removing = none := by
      unfold Op.removing
      split
      · exact absurd hop (hupload _ _ _)
      · exact absurd hop (hpurge _ _ _)
      · rfl
    exact h.leaves hop rfl rfl rfl (handed_same rfl) rfl (by rw [hremoving]; nofun)

/-! ## Transactions -/

theorem Consistent.inserts {i : Nat} {documentId : DocumentId} {body : Bytes}
    (hop : s.ops[i]? = some (.upload documentId body .stored)) :
    Consistent digest { s with db := s.db.insert documentId (digest body) body.length } where
  idle := h.idle
  full := h.full
  tied hash := by rw [AssetTables.hasBlob_insert, AssetTables.references_insert, h.tied hash]
  gates := h.gates
  puts := h.puts
  putting := h.putting
  active := h.active
  committed := h.committed
  unreferenced op hmem hr hash hg := by
    rw [AssetTables.references_insert, h.unreferenced op hmem hr hash hg, Bool.false_or, beq_eq_false_iff_ne]
    rintro rfl
    have hsame := h.holder_unique hmem (mem_of_getElem? hop) hg rfl
    rw [hsame] at hr
    cases hr
  links := h.links
  backed hash hneeds := by
    have hneeds₀ : s.Needs digest hash := by
      rcases hneeds with hblob | hheld
      · rw [AssetTables.hasBlob_insert, Bool.or_eq_true, beq_iff_eq] at hblob
        rcases hblob with hblob | rfl
        · exact .inl hblob
        · exact .inr ⟨_, mem_of_getElem? hop, .inl rfl, rfl⟩
      · exact .inr hheld
    exact h.backed hash hneeds₀
  swept := h.swept

theorem Consistent.purges {documentId : DocumentId} :
    Consistent digest { s with db := (s.db.purge documentId).1 } where
  idle := h.idle
  full := h.full
  tied hash := AssetTables.purge_tied h.tied
  gates := h.gates
  puts := h.puts
  putting := h.putting
  active := h.active
  committed := h.committed
  unreferenced op hmem hr hash hg := by
    have hreferences := h.unreferenced op hmem hr hash hg
    by_contra hkept
    rw [AssetTables.references_of_purge (Bool.not_eq_false _ ▸ hkept)] at hreferences
    cases hreferences
  links := h.links
  backed hash hneeds := by
    refine h.backed hash (hneeds.imp_left fun hblob => ?_)
    rw [AssetTables.purge_tied h.tied] at hblob
    rw [h.tied hash]
    exact AssetTables.references_of_purge hblob
  swept := h.swept

theorem transact_consistent {i : Nat} :
    (s.transact digest config i allowed).Consistent digest := by
  unfold transact
  split
  · rename_i documentId body hop
    split
    · exact (h.inserts hop).leaves hop rfl rfl rfl (handed_same rfl) rfl nofun
    · exact h.continues hop rfl rfl rfl (handed_same rfl) rfl nofun (fun _ => id) nofun nofun nofun
  · rename_i documentId reclaim hop
    split
    · have hops : (s.next i documentId (s.db.purge documentId).2).ops =
          (AssetStore.next { s with db := (s.db.purge documentId).1 } i documentId (s.db.purge documentId).2).ops := by
        unfold next
        split
        · rfl
        · rfl
      exact h.purges.goes_on hop next_phase rfl next_disk (handed_same next_workers) hops nofun
    · exact h.leaves hop rfl rfl rfl (handed_same rfl) rfl nofun
  · exact h

end

end

/-! ## Publishing -/

section
open Files
variable {digest : Bytes → Hash} {w : Nat} {hash : Hash} {bytes content : Bytes} {disk : Disk} {stage : PutStage}
  {name : FileName}

variable (digest w hash bytes disk stage) in
/-- A step of an upload links its staging file under the hash, or changes nothing but that file. -/
theorem putBlocking_cases :
    (∀ name ≠ .upload w, (putBlocking digest w hash bytes disk stage).2.read name = disk.read name) ∧
      ((putBlocking digest w hash bytes disk stage).1 = .written →
        (putBlocking digest w hash bytes disk stage).2.read (.upload w) = some bytes) ∧
      ((putBlocking digest w hash bytes disk stage).1.published = true →
        stage.published = true ∨ (disk.read (.content hash)).isSome = true) ∨
    stage = .written ∧ ∃ linked, disk.link (.upload w) (.content hash) = .ok linked ∧
      putBlocking digest w hash bytes disk stage = (.linked, linked) := by
  cases stage with
  | queued =>
    simp only [putBlocking]
    split
    · exact .inl ⟨fun _ _ => rfl, fun h => (by cases h), fun h => (by cases h)⟩
    · split
      · exact .inl ⟨fun _ _ => rfl, fun h => (by cases h), fun h => (by cases h)⟩
      · exact .inl ⟨fun _ _ => rfl, fun h => (by cases h), fun h => (by cases h)⟩
  | existing =>
    simp only [putBlocking]
    split
    · rename_i hread
      exact .inl ⟨fun _ _ => rfl, fun h => (by cases h), fun _ => .inr (Option.isSome_of_eq_some hread)⟩
    · exact .inl ⟨fun _ _ => rfl, fun h => (by cases h), fun h => (by cases h)⟩
  | absent =>
    simp only [putBlocking]
    split
    · exact .inl ⟨fun _ _ => rfl, fun h => (by cases h), fun h => (by cases h)⟩
    · exact .inl ⟨fun name hname => Directory.read_write.trans (if_neg hname), fun h => (by cases h),
        fun h => (by cases h)⟩
  | created =>
    exact .inl ⟨fun name hname => Directory.read_write.trans (if_neg hname),
      fun _ => Directory.read_write.trans (if_pos rfl), fun h => (by cases h)⟩
  | written =>
    simp only [putBlocking]
    split
    · rename_i linked hlink
      exact .inr ⟨trivial, linked, hlink, rfl⟩
    · exact .inl ⟨fun _ _ => rfl, fun h => (by cases h), fun h => (by cases h)⟩
    · exact .inl ⟨fun _ _ => rfl, fun h => (by cases h), fun h => (by cases h)⟩
  | linked => exact .inl ⟨fun name hname => Directory.read_unlink.trans (if_neg hname), fun h => (by cases h), fun _ => .inl rfl⟩
  | duplicate => exact .inl ⟨fun name hname => Directory.read_unlink.trans (if_neg hname), fun h => (by cases h), fun h => (by cases h)⟩
  | done ok => exact .inl ⟨fun _ _ => rfl, fun h => (by cases h), .inl⟩

theorem putBlocking_kept (hname : name ≠ .upload w) (h : disk.read name = some content) :
    (putBlocking digest w hash bytes disk stage).2.read name = some content := by
  rcases putBlocking_cases digest w hash bytes disk stage with ⟨hframe, -⟩ | ⟨-, linked, hlink, hnext⟩
  · rw [hframe name hname, h]
  obtain ⟨hfree, published, -, hread⟩ := Directory.link_ok hlink
  have hother : name ≠ .content hash := by
    rintro rfl
    rw [hfree] at h
    cases h
  rw [hnext, hread, if_neg hother, h]

theorem putBlocking_new (hname : name ≠ .upload w)
    (h : (putBlocking digest w hash bytes disk stage).2.read name = some content) :
    disk.read name = some content ∨
      stage = .written ∧ name = .content hash ∧ disk.read (.upload w) = some content := by
  rcases putBlocking_cases digest w hash bytes disk stage with ⟨hframe, -⟩ | ⟨hstage, linked, hlink, hnext⟩
  · exact .inl ((hframe name hname).symm.trans h)
  obtain ⟨-, published, hsource, hread⟩ := Directory.link_ok hlink
  rw [hnext, hread] at h
  split at h
  · rename_i he
    exact .inr ⟨hstage, he, hsource.trans h⟩
  · exact .inl h

theorem putBlocking_written (h : (putBlocking digest w hash bytes disk stage).1 = .written) :
    (putBlocking digest w hash bytes disk stage).2.read (.upload w) = some bytes := by
  rcases putBlocking_cases digest w hash bytes disk stage with ⟨-, hwritten, -⟩ | ⟨-, linked, -, hnext⟩
  · exact hwritten h
  · rw [hnext] at h
    cases h

theorem putBlocking_published (h : (putBlocking digest w hash bytes disk stage).1.published = true) :
    stage.published = true ∨
      ((putBlocking digest w hash bytes disk stage).2.read (.content hash)).isSome = true := by
  rcases putBlocking_cases digest w hash bytes disk stage with ⟨hframe, -, hpublished⟩ | ⟨-, linked, hlink, hnext⟩
  · rw [hframe _ (by simp)]
    exact hpublished h
  · obtain ⟨-, published, -, hread⟩ := Directory.link_ok hlink
    rw [hnext, hread, if_pos rfl]
    exact .inr rfl

end

/-! ## Reclaiming -/

section
open Files
variable {w : Nat} {hash : Hash} {content : Bytes} {disk : Disk} {token : Removal} {stage : RemoveStage}
  {name : FileName}

variable (w hash disk token stage) in
/-- A step of a removal changes nothing on the disk, takes the private link or the content away, or links one to the
other. -/
theorem removeBlocking_cases :
    (removeBlocking w hash token disk stage).2 = disk ∧
      ((removeBlocking w hash token disk stage).1.keeps = true → stage.keeps = true) ∨
    (removeBlocking w hash token disk stage).1.keeps = false ∧
      (removeBlocking w hash token disk stage).2 = disk.unlink (.remove hash w) ∨
    stage = .checked ∧ (removeBlocking w hash token disk stage).2 = disk.unlink (.content hash) ∨
    (∃ linked, disk.link (.content hash) (.remove hash w) = .ok linked ∧
      (removeBlocking w hash token disk stage).2 = linked) ∨
    stage = .restoring ∧ ∃ linked, disk.link (.remove hash w) (.content hash) = .ok linked ∧
      (removeBlocking w hash token disk stage).2 = linked := by
  cases stage with
  | queued =>
    simp only [removeBlocking]
    split
    · exact .inl ⟨rfl, fun h => (by cases h)⟩
    · exact .inl ⟨rfl, fun h => (by cases h)⟩
  | started =>
    simp only [removeBlocking]
    split
    · rename_i linked hlink
      exact .inr (.inr (.inr (.inl ⟨linked, hlink, rfl⟩)))
    · exact .inl ⟨rfl, fun h => (by cases h)⟩
    · exact .inl ⟨rfl, fun h => (by cases h)⟩
  | linked | unlinked =>
    simp only [removeBlocking]
    split
    · exact .inl ⟨rfl, fun _ => rfl⟩
    · exact .inl ⟨rfl, fun _ => rfl⟩
  | abandoned | committed | restored => exact .inr (.inl ⟨rfl, rfl⟩)
  | checked => exact .inr (.inr (.inl ⟨rfl, rfl⟩))
  | restoring =>
    simp only [removeBlocking]
    split
    · rename_i linked hlink
      exact .inr (.inr (.inr (.inr ⟨trivial, linked, hlink, rfl⟩)))
    · exact .inl ⟨rfl, fun _ => rfl⟩
    · split
      · exact .inl ⟨rfl, fun _ => rfl⟩
      · exact .inl ⟨rfl, fun _ => rfl⟩
  | done ok => exact .inl ⟨rfl, id⟩

theorem removeBlocking_frame (hcontent : name ≠ .content hash) (hlink : name ≠ .remove hash w) :
    (removeBlocking w hash token disk stage).2.read name = disk.read name := by
  rcases removeBlocking_cases w hash disk token stage with
    ⟨h, -⟩ | ⟨-, h⟩ | ⟨-, h⟩ | ⟨linked, hlinked, h⟩ | ⟨-, linked, hlinked, h⟩
  · rw [h]
  · rw [h, Directory.read_unlink, if_neg hlink]
  · rw [h, Directory.read_unlink, if_neg hcontent]
  · obtain ⟨-, _, -, hread⟩ := Directory.link_ok hlinked
    rw [h, hread, if_neg hlink]
  · obtain ⟨-, _, -, hread⟩ := Directory.link_ok hlinked
    rw [h, hread, if_neg hcontent]

theorem unlink_read {gone : FileName} (h : (disk.unlink gone).read name = some content) :
    disk.read name = some content := by
  rw [Directory.read_unlink] at h
  split at h
  · cases h
  · exact h

theorem removeBlocking_new (h : (removeBlocking w hash token disk stage).2.read name = some content) :
    disk.read name = some content ∨ name.hash? = some hash ∧
      (disk.read (.content hash) = some content ∨ disk.read (.remove hash w) = some content) := by
  rcases removeBlocking_cases w hash disk token stage with
    ⟨he, -⟩ | ⟨-, he⟩ | ⟨-, he⟩ | ⟨linked, hlink, he⟩ | ⟨-, linked, hlink, he⟩
  · exact .inl (he ▸ h)
  · exact .inl (unlink_read (he ▸ h))
  · exact .inl (unlink_read (he ▸ h))
  · obtain ⟨-, _, hsource, hread⟩ := Directory.link_ok hlink
    rw [he, hread] at h
    split at h
    · rename_i hname
      exact .inr ⟨hname ▸ rfl, .inl (hsource.trans h)⟩
    · exact .inl h
  · obtain ⟨-, _, hsource, hread⟩ := Directory.link_ok hlink
    rw [he, hread] at h
    split at h
    · rename_i hname
      exact .inr ⟨hname ▸ rfl, .inr (hsource.trans h)⟩
    · exact .inl h

theorem removeBlocking_content (hstage : stage ≠ .checked) (h : (disk.read (.content hash)).isSome = true) :
    ((removeBlocking w hash token disk stage).2.read (.content hash)).isSome = true := by
  have hother : FileName.content hash ≠ .remove hash w := by simp
  rcases removeBlocking_cases w hash disk token stage with
    ⟨he, -⟩ | ⟨-, he⟩ | ⟨hchecked, -⟩ | ⟨linked, hlink, he⟩ | ⟨-, linked, hlink, he⟩
  · rw [he, h]
  · rw [he, Directory.read_unlink, if_neg hother, h]
  · exact absurd hchecked hstage
  · obtain ⟨-, _, -, hread⟩ := Directory.link_ok hlink
    rw [he, hread, if_neg hother, h]
  · obtain ⟨-, _, -, hread⟩ := Directory.link_ok hlink
    rw [he, hread, if_pos rfl]
    rfl

theorem removeBlocking_keeps (h : (removeBlocking w hash token disk stage).1.keeps = true)
    (hkept : stage.keeps = true → (disk.read (.remove hash w)).isSome = true) :
    ((removeBlocking w hash token disk stage).2.read (.remove hash w)).isSome = true := by
  have hother : FileName.remove hash w ≠ .content hash := by simp
  rcases removeBlocking_cases w hash disk token stage with
    ⟨he, hkeeps⟩ | ⟨hgone, -⟩ | ⟨rfl, he⟩ | ⟨linked, hlink, he⟩ | ⟨rfl, linked, hlink, he⟩
  · rw [he, hkept (hkeeps h)]
  · cases hgone.symm.trans h
  · rw [he, Directory.read_unlink, if_neg hother, hkept rfl]
  · obtain ⟨-, _, -, hread⟩ := Directory.link_ok hlink
    rw [he, hread, if_pos rfl]
    rfl
  · obtain ⟨-, _, -, hread⟩ := Directory.link_ok hlink
    rw [he, hread, if_neg hother, hkept rfl]

theorem removeBlocking_gone (hgone : stage.gone = true) (hkept : (disk.read (.remove hash w)).isSome = true) :
    (removeBlocking w hash .cancelled disk stage).1.gone = true ∨
      ((removeBlocking w hash .cancelled disk stage).2.read (.content hash)).isSome = true := by
  cases stage with
  | unlinked => exact .inl rfl
  | restoring =>
    right
    simp only [removeBlocking]
    split
    · rename_i linked hlink
      obtain ⟨-, found, -, hread⟩ := Directory.link_ok hlink
      rw [hread, if_pos rfl]
      rfl
    · rename_i hlink
      exact Directory.link_alreadyExists hlink
    · rename_i hlink
      rw [Directory.link_notFound hlink] at hkept
      cases hkept
  | queued | started | linked | abandoned | checked | committed | restored | done => cases hgone

theorem removeBlocking_live (h : (removeBlocking w hash token disk stage).1.live = true) : stage.live = true := by
  cases stage with
  | queued | started | linked | checked | unlinked => rfl
  | abandoned => cases h
  | committed => cases h
  | restoring =>
    simp only [removeBlocking] at h
    split at h
    · cases h
    · cases h
    · split at h
      · cases h
      · cases h
  | restored => cases h
  | done ok => cases h

theorem removeBlocking_committed (h : commitRemoval token stage = .committed) (hlive : token = .committed → stage.live = false) :
    (removeBlocking w hash token disk stage).1.live = false := by
  by_cases htoken : token = .committed
  · by_contra hnext
    rw [removeBlocking_live (Bool.not_eq_false _ ▸ hnext)] at hlive
    cases hlive htoken
  unfold commitRemoval at h
  split at h
  · rename_i hcommits
    rw [hcommits.1, hcommits.2]
    rfl
  · exact absurd h htoken

end

section
variable {digest : Bytes → Hash} {s : AssetStore} {w : Nat}

def works (s : AssetStore) (w : Nat) (worker : Worker) (disk : Disk) : AssetStore :=
  { s with workers := s.workers.set w worker, disk }

theorem getElem?_works (h : (s.workers.set w worker)[w']? = some found) :
    w' = w ∧ found = worker ∨ w' ≠ w ∧ s.workers[w']? = some found := by
  rw [getElem?_set] at h
  split at h
  · rename_i he
    split at h
    · exact .inl ⟨he.symm, (Option.some.inj h).symm⟩
    · cases h
  · rename_i he
    exact .inr ⟨Ne.symm he, h⟩

theorem works_kept (h : s.workers[w']? = some found) (hne : w' ≠ w) :
    (s.workers.set w worker)[w']? = some found := by
  rw [getElem?_set, if_neg (Ne.symm hne), h]

theorem works_self (h : s.workers[w]? = some found) :
    (s.workers.set w worker)[w]? = some worker := by
  obtain ⟨hw, -⟩ := List.getElem?_eq_some_iff.mp h
  rw [getElem?_set, if_pos rfl, if_pos hw]

theorem Consistent.busy (h : s.Consistent digest) (hw : s.workers[w]? = some worker) :
    s.phase = .serving := by
  by_contra hdown
  rw [(h.idle hdown).2] at hw
  cases hw

theorem Consistent.publishes (h : s.Consistent digest) {hash : Hash} {bytes : Bytes} {stage : PutStage}
    (hw : s.workers[w]? = some (.put hash bytes stage)) :
    (s.works w (.put hash bytes (putBlocking digest w hash bytes s.disk stage).1)
      (putBlocking digest w hash bytes s.disk stage).2).Consistent digest := by
  have hserving := h.busy hw
  obtain ⟨hdigest, hwritten⟩ := h.puts w hash bytes stage hw
  have hcontent : ∀ hash', (s.disk.read (.content hash')).isSome = true →
      ((putBlocking digest w hash bytes s.disk stage).2.read (.content hash')).isSome = true := by
    intro hash' hread
    obtain ⟨content, hread⟩ := Option.isSome_iff_exists.mp hread
    exact Option.isSome_of_eq_some (putBlocking_kept (by simp) hread)
  have hlinks : ∀ hash' w', (s.disk.read (.remove hash' w')).isSome = true →
      ((putBlocking digest w hash bytes s.disk stage).2.read (.remove hash' w')).isSome = true := by
    intro hash' w' hread
    obtain ⟨content, hread⟩ := Option.isSome_iff_exists.mp hread
    exact Option.isSome_of_eq_some (putBlocking_kept (by simp) hread)
  refine
    { idle := fun hdown => absurd hserving hdown
      full := ?full
      tied := h.tied
      gates := h.gates
      puts := ?puts
      putting := ?putting
      active := ?active
      committed := ?committed
      unreferenced := h.unreferenced
      links := ?links
      backed := ?backed
      swept := fun left hsweeping => absurd (hserving.symm.trans hsweeping) (by simp) }
  case full =>
    intro name content hash' hread hname
    have hother : name ≠ .upload w := by
      rintro rfl
      cases hname
    rcases putBlocking_new hother hread with hread | ⟨hstage, rfl, hsource⟩
    · exact h.full name content hash' hread hname
    cases hname
    rw [hwritten hstage] at hsource
    cases hsource
    exact hdigest
  case puts =>
    intro w' hash' bytes' stage' hput
    rcases getElem?_works hput with ⟨rfl, hworker⟩ | ⟨hne, hput⟩
    · cases hworker
      exact ⟨hdigest, putBlocking_written⟩
    · obtain ⟨hdigest', hwritten'⟩ := h.puts w' hash' bytes' stage' hput
      exact ⟨hdigest', fun he => putBlocking_kept (by simp [hne]) (hwritten' he)⟩
  case putting =>
    intro op hop w' hputting
    obtain ⟨hash', bytes', stage', hput, hg⟩ := h.putting op hop w' hputting
    by_cases hne : w' = w
    · subst hne
      cases hw.symm.trans hput
      exact ⟨hash, bytes, _, works_self hw, hg⟩
    · exact ⟨hash', bytes', stage', works_kept hput hne, hg⟩
  case active =>
    intro w' hash' stage' hremove
    rcases getElem?_works hremove with ⟨-, hworker⟩ | ⟨-, hremove⟩
    · cases hworker
    · exact h.active w' hash' stage' hremove
  case committed =>
    intro w' hash' stage' hremove
    rcases getElem?_works hremove with ⟨-, hworker⟩ | ⟨-, hremove⟩
    · cases hworker
    · exact h.committed w' hash' stage' hremove
  case links =>
    intro w' hash' token stage' hremove hkeeps
    rcases getElem?_works hremove with ⟨-, hworker⟩ | ⟨-, hremove⟩
    · cases hworker
    · exact hlinks hash' w' (h.links w' hash' token stage' hremove hkeeps)
  case backed =>
    have hbacked : ∀ hash', s.Needs digest hash' →
        (s.works w (.put hash bytes (putBlocking digest w hash bytes s.disk stage).1)
          (putBlocking digest w hash bytes s.disk stage).2).Backed hash' := by
      intro hash' hneeds
      refine (h.backed hash' hneeds).mono rfl (hcontent hash') ?_ (hlinks hash')
      rintro ⟨w', stage', hremove, hgone⟩
      have hne : w' ≠ w := by
        rintro rfl
        cases hw.symm.trans hremove
      exact .inr (.inl ⟨w', stage', works_kept hremove hne, hgone⟩)
    intro hash' hneeds
    rcases hneeds with hblob | ⟨op, hop, hp | ⟨w', hash₁, bytes₁, stage₁, hputting, hput, hpublished⟩, hg⟩
    · exact hbacked hash' (.inl hblob)
    · exact hbacked hash' (.inr ⟨op, hop, .inl hp, hg⟩)
    rcases getElem?_works hput with ⟨rfl, hworker⟩ | ⟨-, hput⟩
    · cases hworker
      rcases putBlocking_published hpublished with hpublished | hread
      · exact hbacked hash' (.inr ⟨op, hop, .inr ⟨w', _, _, _, hputting, hw, hpublished⟩, hg⟩)
      obtain ⟨hash₂, bytes₂, stage₂, hput₂, hg₂⟩ := h.putting op hop w' hputting
      cases hw.symm.trans hput₂
      cases hg.symm.trans hg₂
      exact .inl hread
    · exact hbacked hash' (.inr ⟨op, hop, .inr ⟨w', _, _, _, hputting, hput, hpublished⟩, hg⟩)

theorem commitRemoval_active {token : Removal} {stage : RemoveStage} (h : commitRemoval token stage = .active) :
    token = .active := by
  unfold commitRemoval at h
  split at h
  · cases h
  · exact h

theorem commitRemoval_cancelled {stage : RemoveStage} : commitRemoval .cancelled stage = .cancelled :=
  if_neg (by simp)

theorem Consistent.reclaims_backed (h : s.Consistent digest) {hash : Hash} {token : Removal} {stage : RemoveStage}
    (hw : s.workers[w]? = some (.remove hash token stage)) (hneeds : s.Needs digest hash) :
    (s.works w (.remove hash (commitRemoval token stage) (removeBlocking w hash token s.disk stage).1)
      (removeBlocking w hash token s.disk stage).2).Backed hash := by
  have hpending : ∀ stage', stage'.gone = true → token = .cancelled →
      (removeBlocking w hash token s.disk stage).1 = stage' →
      (s.works w (.remove hash (commitRemoval token stage) (removeBlocking w hash token s.disk stage).1)
        (removeBlocking w hash token s.disk stage).2).Backed hash := by
    intro stage' hgone htoken hnext
    refine .inr (.inl ⟨w, stage', ?_, hgone⟩)
    rw [hnext, htoken, commitRemoval_cancelled]
    exact works_self hw
  by_cases hchecked : stage = .checked
  · subst hchecked
    cases token with
    | active =>
      obtain ⟨op, hop, hremoving, hg⟩ := h.active w hash _ hw rfl
      exact absurd hneeds (h.not_needed hop hremoving hg)
    | cancelled => exact hpending .unlinked rfl rfl rfl
    | committed => cases h.committed w hash _ hw
  · rcases h.backed hash hneeds with hread | ⟨w', stage', hremove, hgone⟩ | ⟨hdown, -⟩
    · exact .inl (removeBlocking_content hchecked hread)
    · by_cases hne : w' = w
      · subst hne
        cases hw.symm.trans hremove
        have hlink := h.links w' hash _ _ hw (RemoveStage.keeps_of_gone hgone)
        rcases removeBlocking_gone hgone hlink with hgone | hread
        · exact hpending _ hgone rfl rfl
        · exact .inl hread
      · exact .inr (.inl ⟨w', stage', works_kept hremove hne, hgone⟩)
    · exact absurd (h.busy hw) hdown

theorem Consistent.reclaims (h : s.Consistent digest) {hash : Hash} {token : Removal} {stage : RemoveStage}
    (hw : s.workers[w]? = some (.remove hash token stage)) :
    (s.works w (.remove hash (commitRemoval token stage) (removeBlocking w hash token s.disk stage).1)
      (removeBlocking w hash token s.disk stage).2).Consistent digest := by
  have hserving := h.busy hw
  refine
    { idle := fun hdown => absurd hserving hdown
      full := ?full
      tied := h.tied
      gates := h.gates
      puts := ?puts
      putting := ?putting
      active := ?active
      committed := ?committed
      unreferenced := h.unreferenced
      links := ?links
      backed := ?backed
      swept := fun left hsweeping => absurd (hserving.symm.trans hsweeping) (by simp) }
  case full =>
    intro name content hash' hread hname
    rcases removeBlocking_new hread with hread | ⟨hname', hread | hread⟩
    · exact h.full name content hash' hread hname
    · cases hname.symm.trans hname'
      exact h.full _ content hash hread rfl
    · cases hname.symm.trans hname'
      exact h.full _ content hash hread rfl
  case puts =>
    intro w' hash' bytes' stage' hput
    rcases getElem?_works hput with ⟨-, hworker⟩ | ⟨-, hput⟩
    · cases hworker
    · obtain ⟨hdigest, hwritten⟩ := h.puts w' hash' bytes' stage' hput
      exact ⟨hdigest, fun he => (removeBlocking_frame (by simp) (by simp)).trans (hwritten he)⟩
  case putting =>
    intro op hop w' hputting
    obtain ⟨hash', bytes', stage', hput, hg⟩ := h.putting op hop w' hputting
    have hne : w' ≠ w := by
      rintro rfl
      cases hw.symm.trans hput
    exact ⟨hash', bytes', stage', works_kept hput hne, hg⟩
  case active =>
    intro w' hash' stage' hremove hlive
    rcases getElem?_works hremove with ⟨rfl, hworker⟩ | ⟨-, hremove⟩
    · simp only [Worker.remove.injEq] at hworker
      obtain ⟨rfl, htoken, rfl⟩ := hworker
      rw [commitRemoval_active htoken.symm] at hw hlive
      exact h.active w' hash' stage hw (removeBlocking_live hlive)
    · exact h.active w' hash' stage' hremove hlive
  case committed =>
    intro w' hash' stage' hremove
    rcases getElem?_works hremove with ⟨rfl, hworker⟩ | ⟨-, hremove⟩
    · simp only [Worker.remove.injEq] at hworker
      obtain ⟨rfl, htoken, rfl⟩ := hworker
      exact removeBlocking_committed htoken.symm fun he => h.committed w' hash' stage (he ▸ hw)
    · exact h.committed w' hash' stage' hremove
  case links =>
    intro w' hash' token' stage' hremove hkeeps
    rcases getElem?_works hremove with ⟨rfl, hworker⟩ | ⟨hne, hremove⟩
    · simp only [Worker.remove.injEq] at hworker
      obtain ⟨rfl, -, rfl⟩ := hworker
      exact removeBlocking_keeps hkeeps (h.links w' hash' token stage hw)
    · have hread : (removeBlocking w hash token s.disk stage).2.read (.remove hash' w') =
          s.disk.read (.remove hash' w') := removeBlocking_frame (by simp) (by simp [hne])
      exact hread ▸ h.links w' hash' token' stage' hremove hkeeps
  case backed =>
    intro hash' hneeds
    have hneeds₀ : s.Needs digest hash' := by
      rcases hneeds with hblob | ⟨op, hop, hp | ⟨w', hash₁, bytes₁, stage₁, hputting, hput, hpublished⟩, hg⟩
      · exact .inl hblob
      · exact .inr ⟨op, hop, .inl hp, hg⟩
      · rcases getElem?_works hput with ⟨-, hworker⟩ | ⟨-, hput⟩
        · cases hworker
        · exact .inr ⟨op, hop, .inr ⟨w', _, _, _, hputting, hput, hpublished⟩, hg⟩
    by_cases he : hash' = hash
    · subst he
      exact h.reclaims_backed hw hneeds₀
    rcases h.backed hash' hneeds₀ with hread | ⟨w', stage', hremove, hgone⟩ | ⟨hdown, -⟩
    · left
      show (Files.Directory.read (removeBlocking w hash token s.disk stage).2 _).isSome = true
      rw [removeBlocking_frame (by simp [he]) (by simp), hread]
    · have hne : w' ≠ w := by
        rintro rfl
        cases hw.symm.trans hremove
        exact he rfl
      exact .inr (.inl ⟨w', stage', works_kept hremove hne, hgone⟩)
    · exact absurd hserving hdown

theorem work_consistent (h : s.Consistent digest) : (s.work digest w).Consistent digest := by
  unfold work
  split
  · rename_i worker hw
    cases worker with
    | put hash bytes stage => exact h.publishes hw
    | remove hash token stage => exact h.reclaims hw
  · exact h

end

/-! ## Crashes and sweeps -/

section
open Files
variable {digest : Bytes → Hash} {db : AssetTables} {disk swept : Disk} {name : FileName}

section

variable (h : sweepEntry digest db disk name = some swept)
include h

/-- The sweep takes an entry away, unless it is a content with a row, or a private link with the only copy of one,
which it puts back first. -/
theorem sweepEntry_cases :
    (∃ hash, name = .content hash ∧ swept = disk) ∨
    (swept = disk.unlink name ∧ (∀ hash, name = .content hash → db.hasBlob hash = false) ∧
      ∀ hash w, name = .remove hash w → db.hasBlob hash = true → (disk.read (.content hash)).isSome = true) ∨
    ∃ hash w linked, name = .remove hash w ∧ disk.link (.remove hash w) (.content hash) = .ok linked ∧
      swept = Directory.unlink linked (.remove hash w) := by
  cases name with
  | remove hash w =>
    simp only [sweepEntry] at h
    split at h
    · split at h
      · split at h
        · split at h
          · rename_i linked hlink
            cases h
            exact .inr (.inr ⟨hash, w, linked, rfl, hlink, rfl⟩)
          · rename_i hexists
            cases h
            refine .inr (.inl ⟨rfl, fun _ he => (by cases he), fun hash' w' he _ => ?_⟩)
            cases he
            exact Directory.link_alreadyExists hexists
          · cases h
        · cases h
      · cases h
    · rename_i hmissing
      cases h
      refine .inr (.inl ⟨rfl, fun _ he => (by cases he), fun hash' w' he hblob => ?_⟩)
      cases he
      rwa [hblob, Bool.true_and, Bool.not_eq_true, Option.isNone_eq_false_iff] at hmissing
  | upload w =>
    cases h
    exact .inr (.inl ⟨rfl, fun _ he => (by cases he), fun _ _ he => (by cases he)⟩)
  | content hash =>
    simp only [sweepEntry] at h
    split at h
    · cases h
      exact .inl ⟨hash, rfl, rfl⟩
    rename_i hunblobbed
    cases h
    refine .inr (.inl ⟨rfl, fun hash' he => ?_, fun _ _ he => (by cases he)⟩)
    cases he
    rwa [Bool.not_eq_true] at hunblobbed

theorem sweepEntry_read {other : FileName} {content : Bytes}
    (hread : swept.read other = some content) : disk.read other = some content ∨
      ∃ hash w, other = .content hash ∧ disk.read (.remove hash w) = some content := by
  rcases sweepEntry_cases h with ⟨-, -, rfl⟩ | ⟨rfl, -⟩ | ⟨hash, w, linked, rfl, hlink, rfl⟩
  · exact .inl hread
  · exact .inl (unlink_read hread)
  obtain ⟨-, found, hsource, hnames⟩ := Directory.link_ok hlink
  have hlinked := unlink_read hread
  rw [hnames] at hlinked
  split at hlinked
  · rename_i he
    exact .inr ⟨hash, w, he, hsource.trans hlinked⟩
  · exact .inl hlinked

theorem sweepEntry_links {hash : Hash} {w : Nat}
    (hread : (swept.read (.remove hash w)).isSome = true) :
    (disk.read (.remove hash w)).isSome = true ∧ name ≠ .remove hash w := by
  obtain ⟨content, hcontent⟩ := Option.isSome_iff_exists.mp hread
  refine ⟨?_, ?_⟩
  · rcases sweepEntry_read h hcontent with hdisk | ⟨_, _, he, -⟩
    · exact Option.isSome_of_eq_some hdisk
    · cases he
  rintro rfl
  rcases sweepEntry_cases h with ⟨_, he, -⟩ | ⟨rfl, -⟩ | ⟨hash', w', linked, he, -, rfl⟩
  · cases he
  · rw [Directory.read_unlink, if_pos rfl] at hcontent
    cases hcontent
  · rw [← he, Directory.read_unlink, if_pos rfl] at hcontent
    cases hcontent

theorem sweepEntry_backed {hash : Hash}
    (hblob : db.hasBlob hash = true)
    (hbacked : (disk.read (.content hash)).isSome = true ∨ ∃ w, (disk.read (.remove hash w)).isSome = true) :
    (swept.read (.content hash)).isSome = true ∨ ∃ w, (swept.read (.remove hash w)).isSome = true := by
  have hunlink : ∀ (dir : Disk) (other : FileName), other ≠ name → (dir.read other).isSome = true →
      ((dir.unlink name).read other).isSome = true := by
    intro dir other hne hread
    rw [Directory.read_unlink, if_neg hne, hread]
  rcases sweepEntry_cases h with ⟨-, -, rfl⟩ | ⟨rfl, hcontents, hlinks⟩ | ⟨hash', w', linked, rfl, hlink, rfl⟩
  · exact hbacked
  · have hne : FileName.content hash ≠ name := by
      intro he
      rw [hcontents hash he.symm] at hblob
      cases hblob
    rcases hbacked with hread | ⟨w, hread⟩
    · exact .inl (hunlink disk _ hne hread)
    · by_cases he : FileName.remove hash w = name
      · exact .inl (hunlink disk _ hne (hlinks hash w he.symm hblob))
      · exact .inr ⟨w, hunlink disk _ he hread⟩
  · obtain ⟨-, found, -, hnames⟩ := Directory.link_ok hlink
    by_cases he : hash = hash'
    · subst he
      left
      refine hunlink linked _ (by simp) ?_
      rw [hnames, if_pos rfl]
      rfl
    · rcases hbacked with hread | ⟨w, hread⟩
      · left
        refine hunlink linked _ (by simp) ?_
        rw [hnames, if_neg (by simp [he]), hread]
      · right
        refine ⟨w, hunlink linked _ (by simp [he]) ?_⟩
        rw [hnames, if_neg (by simp), hread]

end

end

section
variable {digest : Bytes → Hash} {s : AssetStore}

section

variable (h : s.Consistent digest)
include h

theorem crash_consistent :
    Consistent digest { s with phase := .down, ops := [], workers := [] } where
  idle _ := ⟨rfl, rfl⟩
  full := h.full
  tied := h.tied
  gates := List.Pairwise.nil
  puts _ _ _ _ hput := nomatch hput
  putting _ hop := nomatch hop
  active _ _ _ hremove := nomatch hremove
  committed _ _ _ hremove := nomatch hremove
  unreferenced _ hop := nomatch hop
  links _ _ _ _ hremove := nomatch hremove
  backed hash hneeds := by
    have hblob : s.db.hasBlob hash = true := by
      rcases hneeds with hblob | ⟨_, hop, -⟩
      · exact hblob
      · cases hop
    rcases h.backed hash (.inl hblob) with hread | ⟨w, stage, hremove, hgone⟩ | ⟨-, hlink⟩
    · exact .inl hread
    · refine .inr (.inr ⟨by simp, w, h.links w hash _ _ hremove ?_⟩)
      exact RemoveStage.keeps_of_gone hgone
    · exact .inr (.inr ⟨by simp, hlink⟩)
  swept _ hsweeping := nomatch hsweeping

theorem Consistent.idles (hdown : s.phase ≠ .serving) {phase : Phase} {disk : Disk}
    (hfull : ∀ name content hash, disk.read name = some content → name.hash? = some hash → digest content = hash)
    (hbacked : ∀ hash, s.db.hasBlob hash = true → (disk.read (.content hash)).isSome = true ∨
      phase ≠ .serving ∧ ∃ w, (disk.read (.remove hash w)).isSome = true)
    (hswept : ∀ left, phase = .sweeping left → ∀ (hash : Hash) (w : Nat),
      (disk.read (.remove hash w)).isSome = true → .remove hash w ∈ left) :
    Consistent digest { s with phase, disk } := by
  obtain ⟨hops, hworkers⟩ := h.idle hdown
  refine
    { idle := fun _ => ⟨hops, hworkers⟩
      full := hfull
      tied := h.tied
      gates := h.gates
      puts := ?puts
      putting := ?putting
      active := h.active
      committed := h.committed
      unreferenced := h.unreferenced
      links := ?links
      backed := ?backed
      swept := hswept }
  case puts =>
    intro w hash bytes stage hput
    rw [show s.workers = [] from hworkers] at hput
    cases hput
  case putting =>
    intro op hop
    rw [show s.ops = [] from hops] at hop
    cases hop
  case links =>
    intro w hash token stage hremove
    rw [show s.workers = [] from hworkers] at hremove
    cases hremove
  case backed =>
    intro hash hneeds
    rcases hneeds with hblob | ⟨op, hop, -⟩
    · exact (hbacked hash hblob).imp_right .inr
    · rw [show s.ops = [] from hops] at hop
      cases hop

theorem Consistent.backed_down (hdown : s.phase ≠ .serving) {hash : Hash}
    (hblob : s.db.hasBlob hash = true) : (s.disk.read (.content hash)).isSome = true ∨
      ∃ w, (s.disk.read (.remove hash w)).isSome = true := by
  rcases h.backed hash (.inl hblob) with hread | ⟨w, stage, hremove, -⟩ | ⟨-, hlink⟩
  · exact .inl hread
  · rw [(h.idle hdown).2] at hremove
    cases hremove
  · exact .inr hlink

theorem restart_consistent (hdown : s.phase = .down) {order : List FileName}
    (hperm : order.isPerm s.disk.names = true) : Consistent digest { s with phase := .sweeping order } := by
  have hidle : s.phase ≠ .serving := by
    rw [hdown]
    simp
  refine h.idles hidle h.full (fun hash hblob => (h.backed_down hidle hblob).imp_right fun hlink => ⟨by simp, hlink⟩) ?_
  intro left hsweeping hash w hread
  cases hsweeping
  obtain ⟨content, hcontent⟩ := Option.isSome_iff_exists.mp hread
  exact (isPerm_iff.mp hperm).mem_iff.mpr (Files.Directory.mem_names hcontent)

theorem sweep_consistent : (s.sweep digest).Consistent digest := by
  unfold sweep
  split
  · rename_i hsweeping
    have hidle : s.phase ≠ .serving := by
      rw [hsweeping]
      simp
    refine h.idles hidle h.full (fun hash hblob => .inl ?_) nofun
    rcases h.backed_down hidle hblob with hread | ⟨w, hlink⟩
    · exact hread
    · cases h.swept _ hsweeping hash w hlink
  · rename_i name left hsweeping
    have hidle : s.phase ≠ .serving := by
      rw [hsweeping]
      simp
    split
    · rename_i disk hentry
      refine h.idles hidle ?_ ?_ ?_
      · intro other content hash hread hname
        rcases sweepEntry_read hentry hread with hread | ⟨hash', w, rfl, hsource⟩
        · exact h.full other content hash hread hname
        · exact h.full _ content hash hsource hname
      · intro hash hblob
        exact (sweepEntry_backed hentry hblob (h.backed_down hidle hblob)).imp_right fun hlink => ⟨by simp, hlink⟩
      · intro left' he hash w hread
        cases he
        obtain ⟨hlink, hne⟩ := sweepEntry_links hentry hread
        exact (mem_cons.mp (h.swept _ hsweeping hash w hlink)).resolve_left (Ne.symm hne)
    · exact h.idles hidle h.full
        (fun hash hblob => (h.backed_down hidle hblob).imp_right fun hlink => ⟨by simp, hlink⟩) nofun
  · exact h

end

/-! ## Runs -/

theorem step_consistent (config : AssetConfig) (event : AssetEvent) (h : s.Consistent digest) :
    (s.step digest config event).Consistent digest := by
  cases event with
  | upload documentId body => exact upload_consistent h
  | purge documentId => exact purge_consistent h
  | lock i => exact lock_consistent h
  | check i allowed => exact check_consistent h
  | transact i allowed => exact transact_consistent h
  | settle i => exact settle_consistent h
  | expire i aborted => exact expire_consistent h
  | leave i => exact leave_consistent h
  | work w => exact work_consistent h
  | crash => exact crash_consistent h
  | restart order =>
    simp only [step]
    split
    · rename_i hrestart
      exact restart_consistent h hrestart.1 hrestart.2
    · exact h
  | sweep => exact sweep_consistent h

theorem init_consistent : init.Consistent digest where
  idle _ := ⟨rfl, rfl⟩
  full _ _ _ hread := nomatch hread
  tied _ := rfl
  gates := List.Pairwise.nil
  puts _ _ _ _ hput := nomatch hput
  putting _ hop := nomatch hop
  active _ _ _ hremove := nomatch hremove
  committed _ _ _ hremove := nomatch hremove
  unreferenced _ hop := nomatch hop
  links _ _ _ _ hremove := nomatch hremove
  backed _ hneeds := by
    rcases hneeds with hblob | ⟨_, hop, -⟩
    · cases hblob
    · cases hop
  swept _ hsweeping := nomatch hsweeping

theorem after_consistent (config : AssetConfig) (events : List AssetEvent) :
    (after digest config events).Consistent digest :=
  Transition.run_inv (C := fun _ _ => True) (I := Consistent digest)
    (fun _ event h _ => step_consistent config event h) init_consistent (Transition.along_of fun _ _ => trivial)

end

/-- In any order of uploads, purges, timeouts, late workers, crashes and sweeps, what a row refers to is on the disk
with its content, under its hash or under a private link of it; when nothing is under way, it is under its hash. -/
theorem assets_sound (digest : Bytes → Hash) (config : AssetConfig) (events : List AssetEvent) (hash : Hash)
    (referenced : (after digest config events).db.hasBlob hash = true ∨
      (after digest config events).db.references hash = true) :
    ((after digest config events).Stored digest (.content hash) hash ∨
      ∃ w, (after digest config events).Stored digest (.remove hash w) hash) ∧
    ((after digest config events).Quiescent → (after digest config events).Stored digest (.content hash) hash) := by
  have h : (after digest config events).Consistent digest := after_consistent config events
  have hblob := referenced.elim id fun hreferences => (h.tied hash).trans hreferences
  have hstored : ∀ name : FileName, name.hash? = some hash →
      ((after digest config events).disk.read name).isSome = true →
      (after digest config events).Stored digest name hash := by
    intro name hname hread
    obtain ⟨content, hread⟩ := Option.isSome_iff_exists.mp hread
    exact ⟨content, hread, h.full name content hash hread hname⟩
  rcases h.backed hash (.inl hblob) with hread | ⟨w, stage, hremove, hgone⟩ | ⟨hdown, w, hlink⟩
  · exact ⟨.inl (hstored _ rfl hread), fun _ => hstored _ rfl hread⟩
  · refine ⟨.inr ⟨w, hstored _ rfl (h.links w hash _ _ hremove (RemoveStage.keeps_of_gone hgone))⟩, fun hquiescent => ?_⟩
    obtain ⟨ok, rfl⟩ := isDone_remove (hquiescent.2.2 _ (mem_of_getElem? hremove))
    cases hgone
  · exact ⟨.inr ⟨w, hstored _ rfl hlink⟩, fun hquiescent => absurd hquiescent.1 hdown⟩

/-- A purge times out as its worker is about to unlink the content, another document takes it up, and the worker goes
on. -/
def lateRemoval : List AssetEvent :=
  [.restart [], .sweep, .upload 1 [7], .lock 0, .check 0 true, .work 0, .work 0, .work 0, .work 0, .work 0, .settle 0,
    .transact 0 true, .purge 1, .transact 0 true, .lock 0, .check 0 true, .work 1, .work 1, .work 1, .expire 0 false,
    .upload 2 [7], .lock 0, .check 0 true, .work 2, .work 2, .settle 0, .transact 0 true, .work 1, .work 1, .work 1,
    .work 1]

theorem assets_sound_lateRemoval : (after id ⟨10, 10⟩ lateRemoval).Stored id (.content [7]) [7] :=
  (assets_sound id ⟨10, 10⟩ lateRemoval [7] (.inl (by decide +kernel))).2
    ⟨by decide +kernel, by decide +kernel, by decide +kernel⟩

end AssetStore

end Marks.Assets
