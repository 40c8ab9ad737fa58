import Marks.Attribution
import Marks.ReplicaSound
import Marks.VersionSound

/-! # Every operation has one author

Author rows and receipt ranges are written from the difference a commit makes to the version, so that each
operation of the hydrated replica is attributed once. A create attributes its initial operations, a duplicate
none of them. -/

namespace Marks

open Room DocumentStore List

namespace DocumentStore

variable (store : DocumentStore)

def authorRows (op : Operation) : List OpAuthorRow :=
  store.opAuthors.filter fun row => row.site == op.origin && row.seq == op.seq

def rangeRows (op : Operation) : List OpAuthorRangeRow :=
  store.opAuthorRanges.filter fun row => row.range.covers op.origin op.seq

def authorities (op : Operation) : List Author :=
  (store.authorRows op).map (·.author) ++ (store.rangeRows op).map (·.author)

end DocumentStore

/-- **Attribution is total and unique**: each operation the store hydrates to has exactly one authority. -/
def Attributed (E : Engine) (store : DocumentStore) : Prop :=
  ∀ doc revision, hydrateDocument E store = some (doc, revision) → ∀ op : Operation, 0 < op.seq →
    (E.version doc).contains op.origin op.seq = true → ∃ author, store.authorities op = [author]

/-- What the engine says of versions: they list sites once and sparse sequences in order, an update adds the
operations its receipt accepts and no others, and a snapshot is answered with the version it leads to. -/
structure Engine.Receipted (E : Engine) : Prop where
  wellFormed : ∀ doc, (E.version doc).WellFormed
  new_lacks : ∀ op : Operation, 0 < op.seq → (E.version E.new).contains op.origin op.seq = false
  update_adds : ∀ doc update doc' receipt, E.applyUpdate doc update = some (doc', receipt) →
    receipt.journalBytes.isSome → ∀ op : Operation, 0 < op.seq →
      ((E.version doc').contains op.origin op.seq = true ↔
        (E.version doc).contains op.origin op.seq = true ∨ op ∈ receipt.acceptedOperations)
  update_new : ∀ doc update doc' receipt, E.applyUpdate doc update = some (doc', receipt) →
    ∀ op ∈ receipt.acceptedOperations, 0 < op.seq ∧ (E.version doc).contains op.origin op.seq = false
  snapshot_version : ∀ doc bytes doc' version, E.applySnapshotBytes doc bytes = some (doc', version) →
    version = E.version doc'
  snapshot_keeps : ∀ doc bytes doc' version, E.applySnapshotBytes doc bytes = some (doc', version) →
    ∀ op : Operation, 0 < op.seq → (E.version doc).contains op.origin op.seq = true →
      (E.version doc').contains op.origin op.seq = true

/-- An insert makes operations of its own, and its replica holds no others. -/
structure Seeding.Lawful {E : Engine} (seeding : Seeding E) : Prop where
  holds : ∀ text doc operations, seeding.insert text = some (doc, operations) → ∀ op : Operation,
    0 < op.seq → ((E.version doc).contains op.origin op.seq = true ↔ op ∈ operations)
  makes : ∀ text doc operations, seeding.insert text = some (doc, operations) → text ≠ [] →
    operations ≠ []
  numbered : ∀ text doc operations, seeding.insert text = some (doc, operations) →
    ∀ op ∈ operations, 0 < op.seq ∧ sequenceFitsStorage op.seq = true

/-! ## Rows -/

/-- The store attributes the operations of `version` once, and no others. -/
def Attributes (store : DocumentStore) (version : Version) : Prop :=
  ∀ op : Operation, 0 < op.seq → (store.authorRows op).length + (store.rangeRows op).length =
    if version.contains op.origin op.seq = true then 1 else 0

variable {store store' : DocumentStore} {version version' : Version}

theorem Attributes.attributed {E : Engine} (h : ∀ doc revision,
    hydrateDocument E store = some (doc, revision) → Attributes store (E.version doc)) :
    Attributed E store := by
  intro doc revision hdoc op hpos hcontains
  have hlength := h doc revision hdoc op hpos
  rw [if_pos hcontains] at hlength
  refine length_eq_one_iff.mp ?_
  simpa [authorities] using hlength

theorem Attributes.congr (h : Attributes store version) (ha : store'.opAuthors = store.opAuthors)
    (hr : store'.opAuthorRanges = store.opAuthorRanges) : Attributes store' version := by
  intro op hpos
  have := h op hpos
  unfold authorRows rangeRows at this ⊢
  rw [ha, hr]
  exact this

theorem authorRows_snoc (row : OpAuthorRow) (op : Operation) :
    (authorRows { store with opAuthors := store.opAuthors ++ [row] } op).length =
      (store.authorRows op).length + if row.site = op.origin ∧ row.seq = op.seq then 1 else 0 := by
  unfold authorRows
  by_cases hrow : row.site = op.origin ∧ row.seq = op.seq
  · simp [filter_append, hrow]
  · simp only [filter_append, length_append, if_neg hrow]
    simp [hrow]

theorem insertOpAuthors_rows {author : Author} {now : Millis} {operations : List Operation}
    (hold : ∀ op ∈ operations, (store.authorRows op).length ≤ 1)
    (h : insertOpAuthors author now operations store = .ok store') :
    store'.opAuthorRanges = store.opAuthorRanges ∧ ∀ op, (store'.authorRows op).length =
      if op ∈ operations then 1 else (store.authorRows op).length := by
  induction operations generalizing store with
  | nil =>
    cases h
    exact ⟨rfl, fun op => by simp⟩
  | cons head rest ih =>
    unfold insertOpAuthors at h
    cases hi : store.insertOpAuthor ⟨head.origin, head.seq, author, now⟩ with
    | error error => rw [hi] at h; cases h
    | ok mid =>
      rw [hi] at h
      have hmid : mid.opAuthorRanges = store.opAuthorRanges ∧ ∀ op, (mid.authorRows op).length =
          if op = head then 1 else (store.authorRows op).length := by
        unfold insertOpAuthor at hi
        split at hi
        · cases hi
        split at hi
        · next hknown =>
          cases hi
          refine ⟨rfl, fun op => ?_⟩
          by_cases heq : op = head
          · obtain ⟨known, hmem, hsame⟩ := any_eq_true.mp hknown
            have hrow : known ∈ store.authorRows head := mem_filter.mpr ⟨hmem, hsame⟩
            have hone := hold head mem_cons_self
            have hpos := length_pos_of_mem hrow
            rw [if_pos heq, heq]
            omega
          · rw [if_neg heq]
        · next hfresh =>
          cases hi
          refine ⟨rfl, fun op => ?_⟩
          rw [authorRows_snoc]
          by_cases heq : op = head
          · have hnone : store.authorRows head = [] := by
              refine filter_eq_nil_iff.mpr fun known hmem hsame => ?_
              exact hfresh (any_eq_true.mpr ⟨known, hmem, hsame⟩)
            rw [if_pos heq, heq, hnone]
            simp
          · rw [if_neg heq, if_neg, Nat.add_zero]
            rintro ⟨hsite, hseq⟩
            cases op
            cases head
            exact heq (by rw [Operation.mk.injEq]; exact ⟨hsite.symm, hseq.symm⟩)
      have hold' : ∀ op ∈ rest, (mid.authorRows op).length ≤ 1 := by
        intro op hop
        rw [hmid.2 op]
        split
        · exact Nat.le_refl 1
        · exact hold op (mem_cons_of_mem head hop)
      obtain ⟨hranges, hrows⟩ := ih hold' h
      refine ⟨hranges.trans hmid.1, fun op => ?_⟩
      rw [hrows op, hmid.2 op]
      by_cases hrest : op ∈ rest
      · simp [hrest]
      · by_cases heq : op = head
        · simp [heq]
        · simp [hrest, heq]

theorem Attributes.operations {author : Author} {now : Millis} {operations : List Operation}
    (h : Attributes store version)
    (hadds : ∀ op : Operation, 0 < op.seq → (version'.contains op.origin op.seq = true ↔
      version.contains op.origin op.seq = true ∨ op ∈ operations))
    (hnew : ∀ op ∈ operations, 0 < op.seq ∧ version.contains op.origin op.seq = false)
    (hok : insertOpAuthors author now operations store = .ok store') : Attributes store' version' := by
  have hnone : ∀ op ∈ operations, (store.authorRows op).length + (store.rangeRows op).length = 0 := by
    intro op hop
    obtain ⟨hpos, hlacks⟩ := hnew op hop
    rw [h op hpos, hlacks]
    rfl
  obtain ⟨hranges, hrows⟩ := insertOpAuthors_rows (fun op hop => by have := hnone op hop; omega) hok
  intro op hpos
  have hsame : store'.rangeRows op = store.rangeRows op := by
    unfold rangeRows
    rw [hranges]
  rw [hrows op, hsame]
  by_cases hop : op ∈ operations
  · have := hnone op hop
    rw [if_pos hop, if_pos ((hadds op hpos).mpr (Or.inr hop))]
    omega
  rw [if_neg hop, h op hpos]
  refine if_congr ?_ rfl rfl
  rw [hadds op hpos]
  exact ⟨Or.inl, fun h => h.resolve_right hop⟩

theorem rangeRows_snoc (row : OpAuthorRangeRow) (op : Operation) :
    (rangeRows { store with opAuthorRanges := store.opAuthorRanges ++ [row] } op).length =
      (store.rangeRows op).length + coverage [row.range] op.origin op.seq := by
  unfold rangeRows coverage
  by_cases hrow : row.range.covers op.origin op.seq = true
  · simp [filter_append, hrow]
  · simp [filter_append, hrow]

theorem insertOpAuthorRanges_rows {author : Author} {now : Millis} {ranges : List AcceptedRange}
    (hspans : Spans ranges)
    (hold : ∀ op : Operation, 0 < op.seq →
      (store.rangeRows op).length + coverage ranges op.origin op.seq ≤ 1)
    (h : insertOpAuthorRanges author now ranges store = .ok store') :
    store'.opAuthors = store.opAuthors ∧ ∀ op : Operation, (store'.rangeRows op).length =
      (store.rangeRows op).length + coverage ranges op.origin op.seq := by
  induction ranges generalizing store with
  | nil =>
    cases h
    exact ⟨rfl, fun op => by simp [coverage]⟩
  | cons head rest ih =>
    have hcons : ∀ op : Operation, coverage (head :: rest) op.origin op.seq =
        coverage [head] op.origin op.seq + coverage rest op.origin op.seq :=
      fun op => @coverage_append [head] op.origin op.seq rest
    unfold insertOpAuthorRanges at h
    cases hi : store.insertOpAuthorRange ⟨head, author, now⟩ with
    | error error => rw [hi] at h; cases h
    | ok mid =>
      rw [hi] at h
      have hmid : mid = { store with opAuthorRanges := store.opAuthorRanges ++ [⟨head, author, now⟩] } := by
        unfold insertOpAuthorRange at hi
        split at hi
        · cases hi
        split at hi
        · next hknown =>
          -- the first sequence of a range that is there already would be held twice
          obtain ⟨known, hmem, hsame⟩ := any_eq_true.mp hknown
          have hrange : known.range = head := by simpa using hsame
          obtain ⟨hpos, hle⟩ := hspans head mem_cons_self
          have hcovers : head.covers head.site head.first = true := by
            simp [AcceptedRange.covers, hle]
          have hrow : known ∈ store.rangeRows ⟨head.site, head.first⟩ :=
            mem_filter.mpr ⟨hmem, by rw [hrange]; exact hcovers⟩
          have hlength := length_pos_of_mem hrow
          have hone : coverage [head] head.site head.first = 1 := by simp [coverage, hcovers]
          have htwo := hold ⟨head.site, head.first⟩ hpos
          have hsum := hcons ⟨head.site, head.first⟩
          simp only at hsum htwo
          omega
        · exact (Except.ok.inj hi).symm
      have hrows : ∀ op, (mid.rangeRows op).length =
          (store.rangeRows op).length + coverage [head] op.origin op.seq := by
        intro op
        rw [hmid]
        exact rangeRows_snoc _ op
      obtain ⟨hauthors, hranges⟩ := ih (fun range hr => hspans range (mem_cons_of_mem head hr))
        (fun op hpos => by
          have := hold op hpos
          rw [hcons op] at this
          rw [hrows op]
          omega) h
      refine ⟨hauthors.trans (by rw [hmid]), fun op => ?_⟩
      rw [hranges op, hrows op, hcons op, Nat.add_assoc]

theorem Attributes.ranges {author : Author} {now : Millis} (h : Attributes store version)
    (hb : version.WellFormed) (ha : version'.WellFormed)
    (hkeeps : ∀ op : Operation, 0 < op.seq → version.contains op.origin op.seq = true →
      version'.contains op.origin op.seq = true)
    (hok : insertOpAuthorRanges author now (newReceiptRanges version version') store = .ok store') :
    Attributes store' version' := by
  have hcover : ∀ op : Operation, 0 < op.seq → coverage (newReceiptRanges version version') op.origin op.seq =
      if version'.contains op.origin op.seq = true ∧ version.contains op.origin op.seq = false then 1 else 0 :=
    fun op hpos => (newReceiptRanges_coverage hb ha hpos).2
  have hspans : Spans (newReceiptRanges version version') :=
    (newReceiptRanges_coverage (s := 0) hb ha (Nat.succ_pos 0)).1
  have hold : ∀ op : Operation, 0 < op.seq → (store.authorRows op).length + (store.rangeRows op).length +
      coverage (newReceiptRanges version version') op.origin op.seq =
        if version'.contains op.origin op.seq = true then 1 else 0 := by
    intro op hpos
    rw [h op hpos, hcover op hpos]
    by_cases hbefore : version.contains op.origin op.seq = true
    · simp [hbefore, hkeeps op hpos hbefore]
    · have hlacks : version.contains op.origin op.seq = false := by simpa using hbefore
      simp [hlacks]
  obtain ⟨hauthors, hranges⟩ := insertOpAuthorRanges_rows hspans (fun op hpos => by
    have := hold op hpos
    split at this <;> omega) hok
  intro op hpos
  have hsame : store'.authorRows op = store.authorRows op := by
    unfold authorRows
    rw [hauthors]
  rw [hsame, hranges op, ← hold op hpos, Nat.add_assoc]

/-! ## Commits -/

def ActionAccounts (before : Version) (action : CommitAction) (after : Version) : Prop :=
  match action with
  | .receipt => after = before
  | .update _ operations _ =>
    (∀ op : Operation, 0 < op.seq → (after.contains op.origin op.seq = true ↔
      before.contains op.origin op.seq = true ∨ op ∈ operations)) ∧
    ∀ op ∈ operations, 0 < op.seq ∧ before.contains op.origin op.seq = false
  | .snapshot _ ranges _ =>
    ranges = newReceiptRanges before after ∧ before.WellFormed ∧ after.WellFormed ∧
      ∀ op : Operation, 0 < op.seq → before.contains op.origin op.seq = true →
        after.contains op.origin op.seq = true

def Accounts : Version → List PreparedCommit → Version → Prop
  | before, [], after => after = before
  | before, commit :: commits, after =>
    ∃ mid, ActionAccounts before commit.action mid ∧ Accounts mid commits after

theorem accounts_snoc {before mid after : Version} {commits : List PreparedCommit} {commit : PreparedCommit}
    (h : Accounts before commits mid) (hc : ActionAccounts mid commit.action after) :
    Accounts before (commits ++ [commit]) after := by
  induction commits generalizing before with
  | nil =>
    have hmid : mid = before := h
    rw [← hmid]
    exact ⟨after, hc, rfl⟩
  | cons c commits ih =>
    obtain ⟨next, hn, hrest⟩ := h
    exact ⟨next, hn, ih hrest⟩

theorem writeAction_attributes {commit : PreparedCommit} (h : Attributes store version)
    (hc : ActionAccounts version commit.action version') (hok : writeAction commit store = .ok store') :
    Attributes store' version' := by
  unfold writeAction at hok
  cases ha : commit.action with
  | receipt =>
    rw [ha] at hok hc
    have hv : version' = version := hc
    rw [← Except.ok.inj hok, hv]
    exact h
  | update journal operations chars =>
    rw [ha] at hok hc
    simp only at hok
    cases hi : store.insertUpdate ⟨commit.revision, journal, commit.actor.author, commit.committedAt⟩ with
    | error error => rw [hi] at hok; cases hok
    | ok mid =>
      rw [hi] at hok
      have hmid : Attributes mid version := by
        rw [insertUpdate_ok hi]
        exact h.congr rfl rfl
      exact hmid.operations hc.1 hc.2 hok
  | snapshot compact ranges chars =>
    rw [ha] at hok hc
    simp only at hok
    cases hi : insertOpAuthorRanges commit.actor.author commit.committedAt ranges store with
    | error error => rw [hi] at hok; cases hok
    | ok mid =>
      rw [hi] at hok
      obtain ⟨hranges, hb, hafter, hkeeps⟩ := hc
      rw [hranges] at hi
      cases hok
      exact (h.ranges hb hafter hkeeps hi).congr rfl rfl

theorem writeCommits_attributes {auth : AuthorityTables} {now : Millis} {validated : List Author}
    {commits : List PreparedCommit} (h : Attributes store version) (hc : Accounts version commits version')
    (hok : writeCommits auth now validated commits store = .ok store') : Attributes store' version' := by
  induction commits generalizing store validated version with
  | nil =>
    have hv : version' = version := hc
    rw [← Except.ok.inj hok, hv]
    exact h
  | cons commit commits ih =>
    obtain ⟨mid, hm, hrest⟩ := hc
    unfold writeCommits at hok
    split at hok
    · cases hok
    cases hw : writeAction commit store with
    | error error => rw [hw] at hok; cases hok
    | ok written =>
      rw [hw] at hok
      simp only at hok
      cases hi : written.insertCommit commit.row with
      | error error => rw [hi] at hok; cases hok
      | ok inserted =>
        rw [hi] at hok
        have hinserted : Attributes inserted mid := by
          rw [(insertCommit_ok hi).1]
          exact (writeAction_attributes h hm hw).congr rfl rfl
        exact ih hinserted hrest hok

theorem commitTx_attributes {db db' : Database} {epoch nextRevision : Nat} {now : Millis}
    {prepared : List PreparedCommit} {compact : Option Bytes} (h : Attributes db.store version)
    (hc : Accounts version prepared version')
    (hok : commitTx db epoch now prepared compact nextRevision = .ok db') : Attributes db'.store version' := by
  unfold commitTx at hok
  cases hl : requireLiveEpoch db.auth epoch with
  | error error => rw [hl] at hok; cases hok
  | ok u =>
    rw [hl] at hok
    simp only at hok
    cases hw : writeCommits db.auth now [] prepared db.store with
    | error error => rw [hw] at hok; cases hok
    | ok written =>
      rw [hw] at hok
      simp only at hok
      have hedits : ∀ {store : DocumentStore} (publicEdit : Bool) (edits : Nat) (at_ : Millis),
          Attributes store version' → Attributes (store.addAnonymousEdits publicEdit edits at_) version' := by
        intro store publicEdit edits at_ hs
        unfold addAnonymousEdits
        split
        · exact hs
        · exact hs.congr rfl rfl
      have hwritten := writeCommits_attributes h hc hw
      cases hok
      cases batchMetadata prepared with
      | none =>
        cases compact with
        | none => exact hedits _ _ _ hwritten
        | some snapshot => exact (hedits _ _ _ hwritten).congr rfl rfl
      | some edit =>
        have hmetadata : Attributes (written.updateDocumentMetadata edit.1 edit.2) version' := hwritten.congr rfl rfl
        cases compact with
        | none => exact hedits _ _ _ hmetadata
        | some snapshot => exact (hedits _ _ _ hmetadata).congr rfl rfl

/-! ## Every reachable state -/

section
variable {env : Env} {κ : Type} {content : env.engine.Doc → κ} (laws : env.engine.Lawful content)
  (receipted : env.engine.Receipted)
include laws receipted

theorem stageMutation_accounts {room : Room env.engine} {batch : Batch} {site : SiteId}
    {mutation : Mutation} {document : env.engine.Doc} {staged : Staged}
    (h : room.stageMutation env batch site mutation = .staged document staged) :
    ActionAccounts (env.engine.version room.document) staged.action (env.engine.version document) := by
  unfold stageMutation at h
  cases hk : mutation.kind with
  | update =>
    rw [hk] at h
    simp only [stageUpdate] at h
    split at h
    · split at h
      · split at h
        · cases h
        next after receipt happly =>
        split at h
        · next journal hj =>
          split at h
          · cases h
          · obtain ⟨rfl, rfl⟩ := Staging.staged.inj h
            exact ⟨receipted.update_adds _ _ _ _ happly (by rw [hj]; rfl), receipted.update_new _ _ _ _ happly⟩
        · next hj =>
          obtain ⟨rfl, rfl⟩ := Staging.staged.inj h
          exact laws.version_congr _ _ (laws.update_unchanged _ _ _ _ happly hj)
      · cases h
    · cases h
  | snapshot =>
    rw [hk] at h
    simp only [stageSnapshot] at h
    split at h
    · cases h
    split at h
    · cases h
    split at h
    · cases h
    next after version happly =>
    split at h
    · next hv =>
      obtain ⟨rfl, rfl⟩ := Staging.staged.inj h
      exact laws.version_congr _ _ (laws.snapshot_unchanged _ _ _ _ happly hv)
    split at h
    · cases h
    split at h
    · cases h
    · obtain ⟨rfl, rfl⟩ := Staging.staged.inj h
      refine ⟨by rw [receipted.snapshot_version _ _ _ _ happly], receipted.wellFormed _,
        receipted.wellFormed _, receipted.snapshot_keeps _ _ _ _ happly⟩

omit receipted in
theorem hydrates_version {doc doc' : env.engine.Doc}
    (h : HydratesTo env.engine content store (content doc))
    (h' : HydratesTo env.engine content store (content doc')) :
    env.engine.version doc = env.engine.version doc' := by
  obtain ⟨found, hfound, hc⟩ := h
  obtain ⟨found', hfound', hc'⟩ := h'
  rw [hfound] at hfound'
  cases hfound'
  exact laws.version_congr _ _ (hc.symm.trans hc')

def Credits (content : env.engine.Doc → κ) (store : DocumentStore) (doc : env.engine.Doc) : Prop :=
  HydratesTo env.engine content store (content doc) ∧ Attributes store (env.engine.version doc)

omit receipted in
theorem Credits.congr {doc doc' : env.engine.Doc} (h : Credits content store doc)
    (hc : content doc' = content doc) : Credits content store doc' := by
  refine ⟨?_, ?_⟩
  · rw [hc]
    exact h.1
  · rw [laws.version_congr _ _ hc]
    exact h.2

def Owes (content : env.engine.Doc → κ) (store : DocumentStore) (room : Room env.engine)
    (prepared : List PreparedCommit) : Prop :=
  ∀ before, HydratesTo env.engine content store (content before) →
    Accounts (env.engine.version before) prepared (env.engine.version room.document)

variable {db db' : Database} {room after : Room env.engine}

omit receipted in
theorem Credits.owes (h : Credits content store room.document) : Owes content store room [] :=
  fun _ hbefore => hydrates_version laws h.1 hbefore

omit receipted in
theorem control_credits (hs : db.store.Sound) (hr : room.revision = db.store.revision)
    (h : Credits content db.store room.document) (step : ControlStep db room db' after) :
    Credits content db'.store after.document := by
  cases step with
  | same same => exact h.congr laws (by rw [same.document])
  | compacted keeps alive step keeps' =>
    have hmid := h.congr laws (congrArg content keeps.document)
    have hafter : ∀ {mid : Room env.engine}, Credits content db'.store mid.document →
        after.document = mid.document → Credits content db'.store after.document :=
      fun hm heq => hm.congr laws (congrArg content heq)
    cases step with
    | skipped => exact hafter hmid keeps'.document
    | moved export_ tx after_eq =>
      rw [keeps.revision.trans hr] at tx
      have hh := compactTx_hydrates hs (laws.compact_rebuilds _ _ export_) tx
      have hcredits : Credits content db'.store _ := ⟨hh, by
        rw [(compactTx_ok tx).2]
        exact hmid.2.congr rfl rfl⟩
      refine hcredits.congr laws ?_
      rw [keeps'.document]
      rcases after_eq with heq | heq
      · rw [heq]
      · rw [heq]
        exact prune_content laws _

theorem TaskStep.credits {e : Event} {phase phase' : Phase} (step : TaskStep e db room phase db' after phase')
    (hlive : room.dead = none) (hs : db.store.Sound) (hr : room.revision = db.store.revision)
    (hn : ∀ frames batch, phase = .staging frames batch →
      Numbered room.revision batch.prepared batch.nextRevision)
    (hm : Mirrors content db.store room phase.prepared)
    (hstore : ∃ doc, Credits content db.store doc) (h : Owes content db.store room phase.prepared) :
    (∃ doc, Credits content db'.store doc) ∧
      (after.dead = none → Owes content db'.store after phase'.prepared) := by
  have hcalm : ∀ phase : Phase, phase.isStaging = false → phase.prepared = [] := by
    intro phase hp
    cases phase with
    | idle => rfl
    | collecting frames => rfl
    | staging frames batch => exact absurd hp (by simp [Phase.isStaging])
  have hquiet : phase.isStaging = false → Credits content db.store room.document := by
    intro hp
    rw [hcalm phase hp] at hm
    obtain ⟨doc, hcredits⟩ := hstore
    refine ⟨hm.hydrates, ?_⟩
    rw [hydrates_version laws hm.hydrates hcredits.1]
    exact hcredits.2
  cases step with
  | loop calm calm' step =>
    have hafter := control_credits laws hs hr (hquiet calm) step
    rw [hcalm _ calm']
    exact ⟨⟨_, hafter⟩, fun _ => hafter.owes laws⟩
  | start calm step =>
    have hafter := control_credits laws hs hr (hquiet calm) step
    exact ⟨⟨_, hafter⟩, fun _ => hafter.owes laws⟩
  | stage step =>
    refine ⟨hstore, fun hd before hbefore => ?_⟩
    have hb := h before hbefore
    cases step with
    | kept keeps =>
      rw [keeps.document]
      exact hb
    | acked keeps again =>
      rw [keeps.document]
      exact hb
    | poisoned keeps dead => exact absurd hd (Option.isSome_iff_ne_none.mp dead)
    | pushed alive carried keeps connected authorized unseen missing stages =>
      rw [keeps.document]
      exact accounts_snoc hb (stageMutation_accounts laws receipted stages)
  | finish cause step =>
    cases step with
    | dead dead => exact absurd hlive (Option.isSome_iff_ne_none.mp dead)
    | acked alive empty keeps =>
      refine ⟨hstore, fun _ before hbefore => ?_⟩
      have hb := h before hbefore
      simp only [Phase.prepared, empty] at hb
      rw [keeps.document]
      exact hb
    | committed alive step =>
      obtain ⟨before, hbefore, hreplays⟩ := hm
      obtain ⟨doc, hcredits⟩ := hstore
      have hnum := hn _ _ rfl
      rw [hr] at hnum
      have haccounts := h before hbefore
      rw [hydrates_version laws hbefore hcredits.1] at haccounts
      have hwritten : ∀ {now : Millis} {batch : Batch} {compact : Option Bytes},
          Numbered db.store.revision batch.prepared batch.nextRevision →
          Replays env.engine content before batch.prepared room.document →
          Accounts (env.engine.version doc) batch.prepared (env.engine.version room.document) →
          room.batchSnapshot env batch.nextSinceCompact = some compact →
          commitTx db room.epoch now batch.prepared compact batch.nextRevision = .ok db' →
            Credits content db'.store room.document := by
        intro now batch compact hnum hreplays haccounts export_ tx
        refine ⟨commitTx_hydrates hs hnum hbefore hreplays (fun snapshot heq => ?_) tx,
          commitTx_attributes hcredits.2 haccounts tx⟩
        rw [heq] at export_
        unfold batchSnapshot at export_
        split at export_
        · obtain ⟨bytes, hb, hsome⟩ := Option.map_eq_some_iff.mp export_
          cases hsome
          exact laws.compact_rebuilds _ _ hb
        · cases export_
      cases step with
      | aborted keeps dead =>
        exact ⟨⟨doc, hcredits⟩, fun hd => absurd hd (Option.isSome_iff_ne_none.mp dead)⟩
      | lost export_ tx keeps dead =>
        exact ⟨⟨_, hwritten hnum hreplays haccounts export_ tx⟩,
          fun hd => absurd hd (Option.isSome_iff_ne_none.mp dead)⟩
      | done export_ tx keeps =>
        have hroom := hwritten hnum hreplays haccounts export_ tx
        have hafter : Credits content db'.store after.document := by
          refine hroom.congr laws ?_
          rw [keeps.document]
          exact settle_content laws _ _ _
        exact ⟨⟨_, hafter⟩, fun _ => hafter.owes laws⟩

end

namespace Server

variable {env : Env} {κ : Type}

structure AttributionInv (content : env.engine.Doc → κ) (s : Server env.engine) : Prop
    extends MirrorInv content s where
  credits : ∃ doc, Credits content s.db.store doc
  owes : ∀ t room phase, Runs s t room phase → room.dead = none →
    Owes content s.db.store room phase.prepared

variable {content : env.engine.Doc → κ} {s s' : Server env.engine} {e : Event}

theorem AttributionInv.effect (laws : env.engine.Lawful content) (receipted : env.engine.Receipted)
    (h : AttributionInv content s) (hc : s.HydratesAlone e) (he : Effect s e s') :
    AttributionInv content s' := by
  suffices hboth : (∃ doc, Credits content s'.db.store doc) ∧
      ∀ t room phase, Runs s' t room phase → room.dead = none →
        Owes content s'.db.store room phase.prepared from
    ⟨h.toMirrorInv.effect laws hc he, hboth.1, hboth.2⟩
  have hold : s'.db.store = s.db.store → (∃ doc, Credits content s'.db.store doc) ∧
      ∀ t room phase, Runs s t room phase → room.dead = none →
        Owes content s'.db.store room phase.prepared := by
    intro hstore
    rw [hstore]
    exact ⟨h.credits, h.owes⟩
  cases he with
  | aside aside reads =>
    obtain ⟨hcredits, howes⟩ := hold aside.store
    exact ⟨hcredits, fun t room phase hr hd => howes t room phase (aside.runs _ _ _ hr) hd⟩
  | @hydrated t room cause store log hydrates fresh runs =>
    obtain ⟨hcredits, howes⟩ := hold (congrArg Database.store store)
    refine ⟨hcredits, fun u r p hr hd => ?_⟩
    rcases runs u r p hr with ⟨-, rfl, rfl⟩ | ⟨-, hold⟩
    · intro before hbefore
      rw [store] at hbefore
      refine hydrates_version laws ⟨r.document, ?_, rfl⟩ hbefore
      rw [← hydrateDocument_revision h.sound hydrates]
      exact hydrates
    · exact howes u r p hold hd
  | @worked t db' room after phase phase' before step hdb log runs =>
    by_cases hlive : room.dead = none
    · obtain ⟨hcredits, howes⟩ := step.credits laws receipted hlive h.sound
        (h.revision t room phase before hlive) (h.numberedPhase before hlive)
        (h.mirrors t room phase before hlive) h.credits (h.owes t room phase before hlive)
      rw [hdb]
      refine ⟨hcredits, fun u r p hr hd => ?_⟩
      rcases runs u r p hr with ⟨-, rfl, rfl⟩ | ⟨hne, hold⟩
      · exact howes hd
      · exact absurd (h.alone u r p t room phase hold hd before hlive) hne
    · have hsame := (step.dead (Option.isSome_iff_ne_none.mpr hlive)).2.1
      obtain ⟨hcredits, howes⟩ := hold (congrArg Database.store (hdb.trans hsame))
      refine ⟨hcredits, fun u r p hr hd => ?_⟩
      rcases runs u r p hr with ⟨-, rfl, -⟩ | ⟨-, hold⟩
      · exact absurd (step.alive hd) hlive
      · exact howes u r p hold hd

theorem attribution_kept (laws : env.engine.Lawful content) (receipted : env.engine.Receipted) :
    Transition.Kept (fun s e => Server.step env s e) Server.HydratesAlone (AttributionInv content) :=
  fun _ e h hc => h.effect laws receipted hc (step_effect h.toTidy e)

theorem AttributionInv.attributed (laws : env.engine.Lawful content) (h : AttributionInv content s) :
    Attributed env.engine s.db.store := by
  obtain ⟨known, hh, ha⟩ := h.credits
  refine Attributes.attributed fun doc revision hdoc => ?_
  have hrevision := hydrateDocument_revision h.sound hdoc
  rw [hrevision] at hdoc
  rw [hydrates_version laws ⟨doc, hdoc, rfl⟩ hh]
  exact ha

end Server

/-! ## Documents as they are created -/

section
variable {E : Engine} {seeding : Seeding E} {maxDocumentUnits : Nat} {author : Author} {now : Millis}

theorem insertInitialOperations_ok {operations : List Operation} {store store' : DocumentStore}
    (hfits : ∀ op ∈ operations, sequenceFitsStorage op.seq = true)
    (h : insertInitialOperations author now operations store = .ok store') :
    insertOpAuthors author now operations store = .ok store' := by
  induction operations generalizing store with
  | nil => exact h
  | cons op operations ih =>
    have hfit := hfits op mem_cons_self
    have hmin : min op.seq maxStoredSequence = op.seq := Nat.min_eq_left (by simpa [sequenceFitsStorage] using hfit)
    unfold insertInitialOperations at h
    simp only [hmin] at h
    split at h
    · cases h
    next hfresh =>
    unfold insertOpAuthors insertOpAuthor
    simp only [hfit, Bool.not_true, Bool.false_eq_true, if_false, if_neg hfresh]
    exact ih (fun op' hop => hfits op' (mem_cons_of_mem op hop)) h

theorem insertDocument_sound (snapshot : Option Bytes) (chars : Nat) : (insertDocument snapshot chars now).Sound where
  sorted := List.Pairwise.nil
  above := fun _ h => by cases h

theorem origin_journal {origin : DocumentOrigin} {store : DocumentStore} (seeds : seeding.Lawful)
    (h : origin.store seeding maxDocumentUnits author now = .ok store) :
    ∃ snapshot chars, Aside (insertDocument snapshot chars now) store := by
  cases origin with
  | create markdown =>
    simp only [DocumentOrigin.store, createDocument] at h
    split at h
    · cases h
    split at h
    · cases h
      exact ⟨_, _, Aside.refl _⟩
    split at h
    · cases h
    next seed operations hseed =>
    split at h
    · cases h
    · have hok := insertInitialOperations_ok (fun op hop => (seeds.numbered _ _ _ hseed op hop).2) h
      exact ⟨_, _, insertOpAuthors_aside hok⟩
  | duplicate text =>
    simp only [DocumentOrigin.store, duplicateDocument] at h
    split at h
    · cases h
    split at h
    · cases h
    · cases h
      exact ⟨_, _, Aside.refl _⟩

theorem origin_created {origin : DocumentOrigin} {store : DocumentStore} (seeds : seeding.Lawful)
    (h : origin.store seeding maxDocumentUnits author now = .ok store) {auth : AuthorityTables}
    (hauth : auth.tickets = []) : Created ⟨auth, store⟩ := by
  obtain ⟨snapshot, chars, haside⟩ := origin_journal seeds h
  exact ⟨haside.snapshotRevision, haside.updates, haside.commits, hauth⟩

variable {κ : Type} {content : E.Doc → κ}

theorem insertDocument_hydrates {snapshot : Bytes} {seed : E.Doc} (hb : E.Rebuilds content snapshot seed)
    (chars : Nat) : HydratesTo E content (insertDocument (some snapshot) chars now) (content seed) :=
  setSnapshot_hydrates (insertDocument_sound none chars) (Nat.le_refl 0) hb

theorem insertDocument_blank (receipted : E.Receipted) (snapshot : Option Bytes) (chars : Nat) :
    Attributes (insertDocument snapshot chars now) (E.version E.new) := by
  intro op hpos
  rw [receipted.new_lacks op hpos]
  rfl

theorem origin_credits (laws : E.Lawful content) (receipted : E.Receipted) (seeds : seeding.Lawful)
    {origin : DocumentOrigin} {store : DocumentStore}
    (hplain : ∀ text, origin = .duplicate text → text = [])
    (h : origin.store seeding maxDocumentUnits author now = .ok store) :
    ∃ doc, HydratesTo E content store (content doc) ∧ Attributes store (E.version doc) := by
  cases origin with
  | create markdown =>
    simp only [DocumentOrigin.store, createDocument] at h
    split at h
    · cases h
    split at h
    · cases h
      exact ⟨E.new, ⟨E.new, rfl, rfl⟩, insertDocument_blank receipted none 0⟩
    split at h
    · cases h
    next seed operations hseed =>
    split at h
    · cases h
    next snapshot hsnapshot =>
    have hnumbered := seeds.numbered _ _ _ hseed
    have hok := insertInitialOperations_ok (fun op hop => (hnumbered op hop).2) h
    have hrebuilds : E.Rebuilds content snapshot seed := by
      rcases Option.or_eq_some_iff.mp hsnapshot with hcompact | ⟨-, hfull⟩
      · exact laws.compact_rebuilds _ _ hcompact
      · exact laws.full_rebuilds _ _ hfull
    refine ⟨seed, (insertDocument_hydrates hrebuilds _).congr (insertOpAuthors_aside hok).toSameJournal, ?_⟩
    refine (insertDocument_blank receipted _ _).operations (fun op hpos => ?_) (fun op hop => ?_) hok
    · rw [seeds.holds _ _ _ hseed op hpos, receipted.new_lacks op hpos]
      simp
    · exact ⟨(hnumbered op hop).1, receipted.new_lacks op (hnumbered op hop).1⟩
  | duplicate text =>
    rw [hplain text rfl] at h
    simp only [DocumentOrigin.store, duplicateDocument, if_true] at h
    split at h
    · cases h
    next snapshot hsnapshot =>
    cases h
    exact ⟨E.new, insertDocument_hydrates (laws.full_rebuilds _ _ hsnapshot) _,
      insertDocument_blank receipted _ _⟩

theorem duplicate_unattributed (laws : E.Lawful content) (seeds : seeding.Lawful) {text : List Char}
    {store : DocumentStore} (htext : text ≠ [])
    (h : DocumentOrigin.store seeding maxDocumentUnits author now (.duplicate text) = .ok store) :
    ¬ Attributed E store := by
  simp only [DocumentOrigin.store, duplicateDocument, if_neg htext] at h
  split at h
  · cases h
  next seed hseed =>
  obtain ⟨⟨found, operations⟩, hinsert, rfl⟩ := Option.map_eq_some_iff.mp hseed
  split at h
  · cases h
  next snapshot hsnapshot =>
  cases h
  have hhydrates : HydratesTo E content (insertDocument (some snapshot) (utf16Count text) now)
      (content found) := insertDocument_hydrates (laws.full_rebuilds _ _ hsnapshot) _
  obtain ⟨doc, hdoc, hc⟩ := hhydrates
  obtain ⟨op, hop⟩ := exists_mem_of_ne_nil _ (seeds.makes _ _ _ hinsert htext)
  have hpos := (seeds.numbered _ _ _ hinsert op hop).1
  intro hall
  obtain ⟨author, hauthor⟩ := hall doc _ hdoc op hpos (by
    rw [laws.version_congr _ _ hc]
    exact (seeds.holds _ _ _ hinsert op hpos).mpr hop)
  exact absurd hauthor (by simp [authorities, authorRows, rangeRows, insertDocument])

end

/-- **Attribution is total and unique** in every state of a run in which no room is hydrated beside a live
one, unless the document is the duplicate of a text that is not empty. -/
theorem attribution_total_unique (env : Env) {κ : Type} (content : env.engine.Doc → κ)
    (laws : env.engine.Lawful content) (receipted : env.engine.Receipted) (seeding : Seeding env.engine)
    (seeds : seeding.Lawful) (maxDocumentUnits : Nat) (author : Author) (now : Millis)
    (origin : DocumentOrigin) (auth : AuthorityTables) (hauth : auth.tickets = []) (store : DocumentStore)
    (hstore : origin.store seeding maxDocumentUnits author now = .ok store) (events : List Event)
    (halone : Transition.Along (fun s e => Server.step env s e) Server.HydratesAlone
      (Server.init env ⟨auth, store⟩) events) :
    (∀ n, Attributed env.engine (Server.after env ⟨auth, store⟩ (events.take n)).db.store) ↔
      ∀ text, origin = .duplicate text → text = [] := by
  constructor
  · intro h text hduplicate
    by_cases htext : text = []
    · exact htext
    · rw [hduplicate] at hstore
      exact absurd (h 0) (duplicate_unattributed laws seeds htext hstore)
  · intro hplain n
    have hcreated := origin_created seeds hstore hauth
    have hinit : Server.AttributionInv content (Server.init env ⟨auth, store⟩) := by
      refine ⟨Server.mirrorInv_init hcreated, origin_credits laws receipted seeds hplain hstore, ?_⟩
      intro t room phase ⟨task, htask, _⟩
      exact absurd htask (by simp [Server.init])
    rw [← take_append_drop n events, Transition.along_append] at halone
    exact (Transition.run_inv (Server.attribution_kept laws receipted) hinit halone.1).attributed laws

/-! ## In the small -/

namespace OpLog

theorem seqsOf_nodup (doc : OpLog) (site : SiteId) : (doc.seqsOf site).Nodup := by
  refine pairwise_map.mpr (List.Pairwise.imp_of_mem ?_ (doc.distinct.filter _))
  intro a b ha hb hne heq
  have hsite : a.site.toNat = b.site.toNat := by
    have hsa := (mem_filter.mp ha).2
    have hsb := (mem_filter.mp hb).2
    rw [beq_iff_eq] at hsa hsb
    rw [hsa, hsb]
  exact hne (by rw [LogOp.operation, LogOp.operation, hsite, heq])

theorem receipts_wellFormed {seqs : List Nat} (h : seqs.Nodup) (site : SiteId) :
    (receipts site seqs).WellFormed where
  sorted := by
    have hsorted := pairwise_insertionSort (fun a b : Nat => a ≤ b)
      (seqs.filter fun seq => contiguous seqs 0 seqs.length < seq)
    have hnodup : ((seqs.filter fun seq => contiguous seqs 0 seqs.length < seq).insertionSort
        fun a b => a ≤ b).Nodup := (perm_insertionSort _ _).nodup_iff.mpr (h.filter _)
    exact hsorted.imp_of_mem (fun _ _ hle => hle) |>.and hnodup |>.imp fun h => Nat.lt_of_le_of_ne h.1 h.2
  above := by
    intro sequence hmem
    have := (mem_filter.mp (mem_insertionSort _ |>.mp hmem)).2
    exact of_decide_eq_true this

theorem version_wellFormed (doc : OpLog) : doc.version.WellFormed where
  sites := by
    refine pairwise_map.mpr ?_
    exact (perm_insertionSort _ _).nodup_iff.mpr (nodup_dedup _)
  receipts := by
    intro r hr
    obtain ⟨site, -, rfl⟩ := mem_map.mp hr
    exact receipts_wellFormed (doc.seqsOf_nodup site) site

theorem recordAll_contains (doc : OpLog) (ops : List LogOp) {op : Operation} (hpos : 0 < op.seq) :
    (doc.recordAll ops).version.contains op.origin op.seq = true ↔
      doc.version.contains op.origin op.seq = true ∨
        op ∈ (doc.since (doc.recordAll ops)).map LogOp.operation := by
  rw [contains_operation hpos, contains_operation hpos, recordAll_ops]
  simp only [mem_append, mem_map, or_and_right, exists_or]

theorem since_new (doc : OpLog) (ops : List LogOp) {known : LogOp}
    (h : known ∈ doc.since (doc.recordAll ops)) :
    doc.version.contains known.operation.origin known.operation.seq = false := by
  have hdistinct := (doc.recordAll ops).distinct
  rw [recordAll_ops] at hdistinct
  refine Bool.eq_false_iff.mpr fun hcontains => ?_
  obtain ⟨old, hold, heq⟩ := (contains_operation (Nat.succ_pos _)).mp hcontains
  exact (pairwise_append.mp hdistinct).2.2 old hold known h heq

end OpLog

theorem opLog_receipted : opLog.Receipted where
  wellFormed := OpLog.version_wellFormed
  new_lacks := fun _ _ => rfl
  update_adds := by
    intro doc ops doc' receipt h _ op hpos
    cases h
    exact OpLog.recordAll_contains doc ops hpos
  update_new := by
    intro doc ops doc' receipt h op hop
    cases h
    obtain ⟨known, hknown, rfl⟩ := mem_map.mp hop
    exact ⟨Nat.succ_pos _, OpLog.since_new doc ops hknown⟩
  snapshot_version := by
    intro doc bytes doc' version h
    obtain ⟨ops, -, hops⟩ := Option.map_eq_some_iff.mp h
    cases hops
    rfl
  snapshot_keeps := by
    intro doc bytes doc' version h op hpos hcontains
    obtain ⟨ops, -, hops⟩ := Option.map_eq_some_iff.mp h
    cases hops
    exact (OpLog.recordAll_contains doc ops hpos).mpr (Or.inl hcontains)

/-- The characters as operations of site 1, the server's. -/
def opLogSeeding : Seeding opLog where
  insert := fun text =>
    if text.length < 256 then
      let doc := OpLog.empty.recordAll
        (text.zipIdx.map fun entry => ⟨1, UInt8.ofNat entry.2, UInt8.ofNat entry.1.toNat⟩)
      some (doc, doc.ops.map LogOp.operation)
    else none

theorem opLogSeeding_lawful : opLogSeeding.Lawful where
  holds := by
    intro text doc operations h op hpos
    simp only [opLogSeeding] at h
    split at h
    · cases h
      exact (OpLog.contains_operation hpos).trans mem_map.symm
    · cases h
  makes := by
    intro text doc operations h htext
    simp only [opLogSeeding] at h
    split at h
    · cases h
      cases text with
      | nil => exact absurd rfl htext
      | cons c text =>
        intro hnil
        have hops := map_eq_nil_iff.mp hnil
        rw [zipIdx_cons, map_cons, OpLog.recordAll, foldl_cons] at hops
        have hfirst := @OpLog.recordAll_ops (OpLog.empty.record ⟨1, UInt8.ofNat 0, UInt8.ofNat c.toNat⟩)
          ((text.zipIdx 1).map fun entry => ⟨1, UInt8.ofNat entry.2, UInt8.ofNat entry.1.toNat⟩)
        rw [OpLog.recordAll, hops] at hfirst
        exact absurd hfirst (by simp [OpLog.record, OpLog.empty])
    · cases h
  numbered := by
    intro text doc operations h op hop
    simp only [opLogSeeding] at h
    split at h
    · cases h
      obtain ⟨known, -, rfl⟩ := mem_map.mp hop
      refine ⟨Nat.succ_pos _, ?_⟩
      have hprior := known.prior.toNat_lt
      refine decide_eq_true ?_
      show known.prior.toNat + 1 ≤ 2 ^ 63 - 1
      omega
    · cases h

def guestAuthor : Author := ⟨.scratch, 1, none⟩

/-- A document created with two characters, and edits of its owner behind them. -/
theorem created_attributed :
    Attributed opLog (Server.after (smallEnv 4) ⟨ownedDocument.auth,
      ⟨some [2, 1, 0, 97, 1, 1, 98], 0, 2, 0, 0, none, [], [],
        [⟨1, 1, guestAuthor, 0⟩, ⟨1, 2, guestAuthor, 0⟩], []⟩⟩ (compacting.take 20)).db.store :=
  (attribution_total_unique (smallEnv 4) id opLog_lawful opLog_receipted opLogSeeding opLogSeeding_lawful 1000
    guestAuthor 0 (.create ['a', 'b']) ownedDocument.auth rfl _ (by decide +kernel) compacting
    (by decide +kernel)).mpr (fun _ h => DocumentOrigin.noConfusion h) 20

/-- A duplicate of one character: nobody is its author. -/
theorem duplicate_has_no_author : ∃ store,
    DocumentOrigin.store opLogSeeding 1000 guestAuthor 0 (.duplicate ['a']) = .ok store ∧
      ¬ Attributed opLog store := by
  refine ⟨⟨some [3, 1, 0, 97], 0, 1, 0, 0, none, [], [], [], []⟩, by decide +kernel, ?_⟩
  have hstore : DocumentOrigin.store opLogSeeding 1000 guestAuthor 0 (.duplicate ['a']) =
      .ok ⟨some [3, 1, 0, 97], 0, 1, 0, 0, none, [], [], [], []⟩ := by decide +kernel
  exact duplicate_unattributed opLog_lawful opLogSeeding_lawful (by decide) hstore

end Marks
