import Marks.AttributionSound

/-! # Snapshots bring the sender's operations only

A snapshot may repeat what the replica has of any site, but what is new in it has to be of the site its sender was
given. The check reads the prefixes and sparse sequences of two versions, and finds a new sequence number of another
site exactly if there is one. -/

namespace Marks

open Room

/-! ## The check -/

structure Version.Canonical (v : Version) : Prop extends v.WellFormed where
  gap : ∀ r ∈ v.receipts, r.contiguous + 1 ∉ r.sparse

def Brings (before after : Version) (op : Operation) : Prop :=
  0 < op.seq ∧ after.contains op.origin op.seq = true ∧ before.contains op.origin op.seq = false

variable {op : Operation}

section
variable {before incoming : Version} {site actorSite : SiteId} {sequence : Nat}

theorem contains_observed (hpos : 0 < sequence) (h : sequence ≤ before.observed site) :
    before.contains site sequence = true := by
  unfold Version.observed at h
  unfold Version.contains
  cases hfind : before.find site with
  | none =>
    simp only [hfind] at h
    omega
  | some r =>
    simp only [hfind] at h
    simp only [Bool.or_eq_true, decide_eq_true_eq]
    exact Or.inl h

theorem lacks_next (hb : before.Canonical) : before.contains site (before.observed site + 1) = false := by
  unfold Version.contains Version.observed
  cases hfind : before.find site with
  | none => rfl
  | some r =>
    have hgap := hb.gap r (List.mem_of_find?_eq_some hfind)
    simpa using hgap

theorem brings_own (h : versionHasNewSiteOtherThan before incoming actorSite = false)
    (hop : Brings before incoming op) : op.origin = actorSite := by
  obtain ⟨hpos, hcontains, hlacks⟩ := hop
  unfold Version.contains at hcontains
  cases hfind : incoming.find op.origin with
  | none =>
    rw [hfind] at hcontains
    cases hcontains
  | some r =>
    have hsite : r.site = op.origin := by simpa using List.find?_some hfind
    have hfalse := List.any_eq_false.mp h r (List.mem_of_find?_eq_some hfind)
    rw [hfind] at hcontains
    simp only [Bool.or_eq_true, decide_eq_true_eq, List.contains_iff_mem] at hcontains
    have hnew : (decide (before.observed r.site < r.contiguous) ||
        r.sparse.any fun sequence => !before.contains r.site sequence) = true := by
      rw [Bool.or_eq_true, decide_eq_true_eq, hsite]
      rcases hcontains with hprefix | hsparse
      · refine Or.inl (Nat.lt_of_not_le fun hle => ?_)
        rw [contains_observed hpos (Nat.le_trans hprefix hle)] at hlacks
        cases hlacks
      · exact Or.inr (List.any_eq_true.mpr ⟨op.seq, hsparse, by rw [hlacks]; rfl⟩)
    simp only [hnew, Bool.true_and, bne_iff_ne, ne_eq, Decidable.not_not] at hfalse
    rw [← hsite, hfalse]

theorem brings_other (hb : before.Canonical) (hi : incoming.Canonical)
    (h : versionHasNewSiteOtherThan before incoming actorSite = true) :
    ∃ op, op.origin ≠ actorSite ∧ Brings before incoming op := by
  obtain ⟨r, hr, hnew⟩ := List.any_eq_true.mp h
  simp only [Bool.and_eq_true, Bool.or_eq_true, decide_eq_true_eq, bne_iff_ne, ne_eq] at hnew
  obtain ⟨hintroduces, hother⟩ := hnew
  rcases hintroduces with hless | hsparse
  · exact ⟨⟨r.site, before.observed r.site + 1⟩, hother, Nat.succ_pos _,
      (contains_iff hi.toWellFormed).mpr ⟨r, hr, rfl, Or.inl hless⟩, lacks_next hb⟩
  obtain ⟨sequence, hsequence, hlacks⟩ := List.any_eq_true.mp hsparse
  have habove := (hi.receipts r hr).above sequence hsequence
  refine ⟨⟨r.site, sequence⟩, hother, Nat.lt_of_le_of_lt (Nat.zero_le _) habove,
    (contains_iff hi.toWellFormed).mpr ⟨r, hr, rfl, Or.inr hsequence⟩, ?_⟩
  simpa using hlacks

end

/-! ## Staging a snapshot -/

/-- A snapshot adds what the version it declares contains. -/
def Engine.Declares (E : Engine) : Prop :=
  ∀ (doc : E.Doc) (bytes : Bytes) (doc' : E.Doc) (version declared : Version),
    E.decode bytes = some (.compactSnapshot declared) ∨ E.decode bytes = some (.fullSnapshot declared) →
    E.applySnapshotBytes doc bytes = some (doc', version) → ∀ op : Operation, 0 < op.seq →
      (E.version doc').contains op.origin op.seq = true →
        (E.version doc).contains op.origin op.seq = true ∨ declared.contains op.origin op.seq = true

def Room.Staging.document? {E : Engine} : Staging E → Option E.Doc
  | .refused => none
  | .poisoned document => some document
  | .staged document _ => some document

section
variable {env : Env} {room after : Room env.engine} {batch batch' : Batch} {site : SiteId} {payload : Bytes}
  {document : env.engine.Doc} {staged : Staged}

theorem snapshotVersion_decodes {declared : Version} (h : snapshotVersion env payload = some declared) :
    env.engine.decode payload = some (.compactSnapshot declared) ∨
      env.engine.decode payload = some (.fullSnapshot declared) := by
  unfold snapshotVersion at h
  split at h
  · rename_i hdecode
    cases h
    exact Or.inl hdecode
  · rename_i hdecode
    cases h
    exact Or.inr hdecode
  · cases h

theorem stageSnapshot_applied (h : (room.stageSnapshot env batch site payload).document? = some document) :
    ∃ declared version, snapshotVersion env payload = some declared ∧
      versionHasNewSiteOtherThan (env.engine.version room.document) declared site = false ∧
      env.engine.applySnapshotBytes room.document payload = some (document, version) ∧
      ∀ later staged, room.stageSnapshot env batch site payload = .staged later staged →
        ∀ compact ranges chars, staged.action = .snapshot compact ranges chars →
          ranges = newReceiptRanges (env.engine.version room.document) version := by
  unfold stageSnapshot at h ⊢
  simp only at h ⊢
  cases hversion : snapshotVersion env payload with
  | none =>
    rw [hversion] at h
    cases h
  | some declared =>
    rw [hversion] at h
    simp only at h ⊢
    by_cases hrefused : (!versionFitsStorage declared ||
        versionHasNewSiteOtherThan (env.engine.version room.document) declared site) = true
    · rw [if_pos hrefused] at h
      cases h
    rw [if_neg hrefused] at h ⊢
    have hown : versionHasNewSiteOtherThan (env.engine.version room.document) declared site = false := by
      rw [Bool.not_eq_true, Bool.or_eq_false_iff] at hrefused
      exact hrefused.2
    cases happly : env.engine.applySnapshotBytes room.document payload with
    | none =>
      rw [happly] at h
      cases h
    | some applied =>
      obtain ⟨document', version⟩ := applied
      rw [happly] at h
      simp only at h ⊢
      refine ⟨declared, version, rfl, hown, ?_, fun later staged hstaged compact ranges chars haction => ?_⟩
      · split at h
        · cases h
          rfl
        split at h
        · cases h
          rfl
        split at h
        · cases h
          rfl
        · cases h
          rfl
      · split at hstaged
        · cases hstaged
          cases haction
        split at hstaged
        · cases hstaged
        split at hstaged
        · cases hstaged
        · cases hstaged
          cases haction
          rfl

theorem stageSnapshot_own (declares : env.engine.Declares)
    (h : (room.stageSnapshot env batch site payload).document? = some document)
    (hop : Brings (env.engine.version room.document) (env.engine.version document) op) : op.origin = site := by
  obtain ⟨declared, version, hversion, hown, happly, _⟩ := stageSnapshot_applied h
  obtain ⟨hpos, hcontains, hlacks⟩ := hop
  rcases declares _ _ _ _ _ (snapshotVersion_decodes hversion) happly op hpos hcontains with hold | hdeclared
  · rw [hlacks] at hold
    cases hold
  · exact brings_own hown ⟨hpos, hdeclared, hlacks⟩

variable {ranges : List AcceptedRange} {chars : Nat}

theorem stageSnapshot_ranges (receipted : env.engine.Receipted) (declares : env.engine.Declares)
    (h : room.stageSnapshot env batch site payload = .staged document staged) {compact : Bytes}
    (haction : staged.action = .snapshot compact ranges chars) :
    ∀ range ∈ ranges, range.site = site := by
  intro range hm
  have hdocument : (room.stageSnapshot env batch site payload).document? = some document := by rw [h]; rfl
  obtain ⟨_, version, _, _, happly, hranges⟩ := stageSnapshot_applied hdocument
  rw [hranges _ _ h _ _ _ haction, receipted.snapshot_version _ _ _ _ happly] at hm
  obtain ⟨hspans, _, hexact⟩ := newReceiptRanges_exact (receipted.wellFormed room.document) (receipted.wellFormed document)
  have hfirst : range.covers range.site range.first = true := by
    simpa [AcceptedRange.covers] using (hspans range hm).2
  have hnew : Brings (env.engine.version room.document) (env.engine.version document) ⟨range.site, range.first⟩ :=
    (hexact range.site range.first).mp ⟨range, hm, hfirst⟩
  exact stageSnapshot_own declares hdocument hnew

def Batch.Own (batch : Batch) : Prop :=
  ∀ commit ∈ batch.prepared, ∀ compact ranges chars, commit.action = .snapshot compact ranges chars →
    ∀ range ∈ ranges, range.site = commit.actor.site

theorem stageMutation_ranges (receipted : env.engine.Receipted) (declares : env.engine.Declares) {mutation : Mutation}
    (h : room.stageMutation env batch site mutation = .staged document staged) {compact : Bytes}
    (haction : staged.action = .snapshot compact ranges chars) :
    ∀ range ∈ ranges, range.site = site := by
  unfold stageMutation at h
  cases hkind : mutation.kind with
  | snapshot =>
    rw [hkind] at h
    exact stageSnapshot_ranges receipted declares h haction
  | update =>
    rw [hkind] at h
    simp only [stageUpdate] at h
    split at h
    · split at h
      · split at h
        · cases h
        split at h
        · split at h
          · cases h
          · cases h
            cases haction
        · cases h
          cases haction
      · cases h
    · cases h

variable {db : Database}

theorem Batch.Own.frame (receipted : env.engine.Receipted) (declares : env.engine.Declares)
    {frame : Inbound} (h : batch.Own) (step : FrameStep db room batch frame after batch') : batch'.Own := by
  cases step with
  | kept _ => exact h
  | acked _ _ => exact h
  | poisoned _ _ => exact h
  | pushed _ _ _ _ _ _ _ stages =>
    intro commit hm compact ranges chars haction
    rcases List.mem_append.mp hm with hm | hm
    · exact h commit hm compact ranges chars haction
    · rw [List.mem_singleton.mp hm] at haction ⊢
      exact stageMutation_ranges receipted declares stages haction

theorem stageFrames_own (receipted : env.engine.Receipted) (declares : env.engine.Declares)
    {frames : List Inbound} (h : batch.Own) : (stageFrames env db frames (room, batch)).2.Own := by
  unfold stageFrames
  induction frames generalizing room batch with
  | nil => exact h
  | cons frame frames ih => exact ih (h.frame receipted declares (stageFrame_step db .ok room batch frame))

end

/-- The check is exact for canonical versions; whatever a snapshot changes in the replica is of its sender's site; and
so are the ranges that any batch credits its senders with. -/
theorem snapshot_origin_exact {env : Env} (receipted : env.engine.Receipted) (declares : env.engine.Declares) :
    (∀ before incoming : Version, before.Canonical → incoming.Canonical → ∀ actorSite,
      (versionHasNewSiteOtherThan before incoming actorSite = true ↔
        ∃ op, op.origin ≠ actorSite ∧ Brings before incoming op)) ∧
    (∀ (room : Room env.engine) batch actor mutation document, mutation.kind = .snapshot →
      (room.stageMutation env batch (actorReceipt actor).site mutation).document? = some document →
        ∀ op, Brings (env.engine.version room.document) (env.engine.version document) op →
          op.origin = (actorReceipt actor).site) ∧
    (∀ db (room : Room env.engine) frames, (stageFrames env db frames (room, room.startBatch env)).2.Own) := by
  refine ⟨fun before incoming hb hi actorSite => ⟨brings_other hb hi, fun ⟨op, hother, hop⟩ => ?_⟩,
    fun room batch actor mutation document hkind h op hop => ?_, fun db room frames => ?_⟩
  · cases hcheck : versionHasNewSiteOtherThan before incoming actorSite with
    | true => rfl
    | false => exact absurd (brings_own hcheck hop) hother
  · unfold stageMutation at h
    rw [hkind] at h
    exact stageSnapshot_own declares h hop
  · exact stageFrames_own receipted declares fun _ hm => (by cases hm)

/-! ## The engine in the small -/

theorem OpLog.recordAll_operations {doc : OpLog} {ops : List LogOp} :
    (∃ known ∈ (doc.recordAll ops).ops, known.operation = op) ↔
      (∃ known ∈ doc.ops, known.operation = op) ∨ ∃ known ∈ ops, known.operation = op := by
  unfold recordAll
  induction ops generalizing doc with
  | nil => simp
  | cons first ops ih =>
    have hfirst : (∃ known ∈ (doc.record first).ops, known.operation = op) ↔
        (∃ known ∈ doc.ops, known.operation = op) ∨ first.operation = op := by
      unfold record
      split
      · rename_i hknown
        refine ⟨Or.inl, fun h => h.elim id fun heq => ?_⟩
        obtain ⟨known, hm, hsame⟩ := hknown
        exact ⟨known, hm, hsame.trans heq⟩
      · simp [or_and_right, exists_or]
    rw [List.foldl_cons, ih, hfirst]
    simp [or_and_right, exists_or, or_assoc]

theorem opLog_declares : opLog.Declares := by
  intro doc bytes doc' version declared hdecode happly op hpos hcontains
  obtain ⟨ops, hops, hsame⟩ := Option.map_eq_some_iff.mp happly
  cases hsame
  have hdeclared : declared = (OpLog.empty.recordAll ops).version := by
    unfold snapshotOps at hops
    split at hops
    · rename_i rest
      have hdecode : (decodeOps rest).map (fun ops => Artifact.compactSnapshot (OpLog.empty.recordAll ops).version) =
          some (.compactSnapshot declared) ∨
        (decodeOps rest).map (fun ops => Artifact.compactSnapshot (OpLog.empty.recordAll ops).version) =
          some (.fullSnapshot declared) := hdecode
      rw [hops] at hdecode
      rcases hdecode with h | h
      · cases h
        rfl
      · cases h
    · rename_i rest
      have hdecode : (decodeOps rest).map (fun ops => Artifact.fullSnapshot (OpLog.empty.recordAll ops).version) =
          some (.compactSnapshot declared) ∨
        (decodeOps rest).map (fun ops => Artifact.fullSnapshot (OpLog.empty.recordAll ops).version) =
          some (.fullSnapshot declared) := hdecode
      rw [hops] at hdecode
      rcases hdecode with h | h
      · cases h
      · cases h
        rfl
    · cases hops
  rw [hdeclared]
  refine ((OpLog.contains_operation hpos).mp hcontains |> OpLog.recordAll_operations.mp).imp
    (fun h => (OpLog.contains_operation hpos).mpr h) fun h => ?_
  exact (OpLog.contains_operation hpos).mpr (OpLog.recordAll_operations.mpr (Or.inr h))

def gapped : Version := ⟨[⟨41, 1, [3]⟩]⟩

def joined : Version := ⟨[⟨41, 3, [5]⟩, ⟨7, 2, []⟩]⟩

theorem gapped_canonical : gapped.Canonical where
  sites := by decide
  receipts := by
    intro r hr
    rw [List.mem_singleton.mp hr]
    exact ⟨by decide, by decide⟩
  gap := by decide

theorem joined_canonical : joined.Canonical where
  sites := by decide
  receipts := by
    intro r hr
    rcases List.mem_cons.mp hr with rfl | hr
    · exact ⟨by decide, by decide⟩
    · rw [List.mem_singleton.mp hr]
      exact ⟨by decide, by decide⟩
  gap := by decide

theorem joined_ranges :
    newReceiptRanges gapped joined = [⟨41, 2, 2⟩, ⟨41, 5, 5⟩, ⟨7, 1, 2⟩] ∧ Coalesced (newReceiptRanges gapped joined) :=
  ⟨by decide, (newReceiptRanges_exact gapped_canonical.toWellFormed joined_canonical.toWellFormed).2.1⟩

theorem joined_brings_other : ∃ op, op.origin ≠ 41 ∧ Brings gapped joined op :=
  ((@snapshot_origin_exact (smallEnv 8) opLog_receipted opLog_declares).1 gapped joined gapped_canonical joined_canonical
    41).mp (by decide)

end Marks
