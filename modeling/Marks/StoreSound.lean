import Marks.RoomSound

/-! # The journal replays to the replica

A sound store has its journal rows above the snapshot boundary in revision order, so its revision is
that of the last row. Every statement of the commit transaction keeps it sound, and when the rows
carry what the replica recorded, hydration returns the replica's content. -/

namespace Marks

open List

variable {row : UpdateRow}

namespace DocumentStore

structure Sound (store : DocumentStore) : Prop where
  sorted : store.updates.Pairwise fun a b => a.revision < b.revision
  above : ∀ row ∈ store.updates, store.snapshotRevision < row.revision

def revision (store : DocumentStore) : Nat :=
  match store.updates.getLast? with
  | some row => row.revision
  | none => store.snapshotRevision

structure SameJournal (store store' : DocumentStore) : Prop where
  snapshot : store'.snapshot = store.snapshot
  snapshotRevision : store'.snapshotRevision = store.snapshotRevision
  updates : store'.updates = store.updates

variable {store store' store'' : DocumentStore}

theorem SameJournal.trans (h : SameJournal store store') (h' : SameJournal store' store'') :
    SameJournal store store'' :=
  ⟨h'.snapshot.trans h.snapshot, h'.snapshotRevision.trans h.snapshotRevision,
    h'.updates.trans h.updates⟩

theorem SameJournal.sound (h : SameJournal store store') (hs : store.Sound) : store'.Sound where
  sorted := by rw [h.updates]; exact hs.sorted
  above := by rw [h.updates, h.snapshotRevision]; exact hs.above

theorem SameJournal.revision (h : SameJournal store store') : store'.revision = store.revision := by
  unfold DocumentStore.revision
  rw [h.updates, h.snapshotRevision]

theorem SameJournal.hydrate (h : SameJournal store store') (E : Engine) :
    hydrateDocument E store' = hydrateDocument E store := by
  unfold hydrateDocument
  rw [h.updates, h.snapshotRevision, h.snapshot]

theorem Sound.le_revision (hs : store.Sound) (hr : row ∈ store.updates) :
    row.revision ≤ store.revision := by
  unfold DocumentStore.revision
  cases hl : store.updates.getLast? with
  | none =>
    rw [getLast?_eq_none_iff.mp hl] at hr
    cases hr
  | some last =>
    obtain ⟨front, hf⟩ := getLast?_eq_some_iff.mp hl
    rw [hf] at hr
    rcases mem_append.mp hr with hr | hr
    · have hsorted := hs.sorted
      rw [hf] at hsorted
      exact Nat.le_of_lt ((pairwise_append.mp hsorted).2.2 row hr last (mem_singleton.mpr rfl))
    · rw [mem_singleton.mp hr]

theorem Sound.snapshot_le (hs : store.Sound) : store.snapshotRevision ≤ store.revision := by
  unfold DocumentStore.revision
  cases hl : store.updates.getLast? with
  | none => exact Nat.le_refl _
  | some last => exact Nat.le_of_lt (hs.above last (mem_of_getLast? hl))

/-! ## Statements -/

theorem insertUpdate_ok (h : store.insertUpdate row = .ok store') :
    store' = { store with updates := store.updates ++ [row] } := by
  unfold insertUpdate at h
  split at h
  · cases h
  · exact (Except.ok.inj h).symm

theorem insertUpdate_sound (hs : store.Sound) (hr : store.revision < row.revision)
    (h : store.insertUpdate row = .ok store') :
    store'.Sound ∧ store'.revision = row.revision := by
  rw [insertUpdate_ok h]
  refine ⟨⟨?_, ?_⟩, ?_⟩
  · refine pairwise_append.mpr ⟨hs.sorted, pairwise_singleton _ _, ?_⟩
    intro a ha b hb
    rw [mem_singleton.mp hb]
    exact Nat.lt_of_le_of_lt (hs.le_revision ha) hr
  · intro a ha
    rcases mem_append.mp ha with ha | ha
    · exact hs.above a ha
    · rw [mem_singleton.mp ha]
      exact Nat.lt_of_le_of_lt hs.snapshot_le hr
  · simp only [DocumentStore.revision, getLast?_append, getLast?_singleton, Option.some_or]

theorem setSnapshot_updates (hs : store.Sound) (snapshot : Bytes) {revision : Nat}
    (hr : store.revision ≤ revision) : (store.setSnapshot snapshot revision).updates = [] := by
  refine filter_eq_nil_iff.mpr fun row hrow => ?_
  have := hs.le_revision hrow
  simp only [decide_eq_true_eq]
  omega

theorem setSnapshot_sound (hs : store.Sound) (snapshot : Bytes) {revision : Nat}
    (hr : store.revision ≤ revision) :
    (store.setSnapshot snapshot revision).Sound ∧
      (store.setSnapshot snapshot revision).revision = revision := by
  have hu := setSnapshot_updates hs snapshot hr
  refine ⟨⟨by rw [hu]; exact List.Pairwise.nil, by rw [hu]; exact fun _ h => by cases h⟩, ?_⟩
  unfold DocumentStore.revision
  rw [hu]
  rfl

/-- Compacting at or past the durable revision moves the boundary there; receipts go only out of the
window. -/
theorem compactAt_sound (hs : store.Sound) (snapshot : Bytes) {revision : Nat}
    (hr : store.revision ≤ revision) :
    (store.compactAt snapshot revision).Sound ∧ (store.compactAt snapshot revision).revision = revision ∧
      (∀ row ∈ (store.compactAt snapshot revision).commits, row ∈ store.commits) ∧
      ∀ row ∈ store.commits, row ∈ (store.compactAt snapshot revision).commits ∨
        row.revision + idempotencyReceiptWindow < revision := by
  obtain ⟨hss, hsr⟩ := setSnapshot_sound hs snapshot hr
  have hj : SameJournal (store.setSnapshot snapshot revision) (store.compactAt snapshot revision) :=
    ⟨rfl, rfl, rfl⟩
  refine ⟨hj.sound hss, hj.revision.trans hsr, fun row hrow => mem_of_mem_filter hrow, ?_⟩
  intro row hrow
  by_cases hcut : revision - idempotencyReceiptWindow ≤ row.revision
  · exact Or.inl (mem_filter.mpr ⟨hrow, by simpa using hcut⟩)
  · exact Or.inr (by omega)

theorem insertCommit_ok {row : CommitRow} (h : store.insertCommit row = .ok store') :
    store' = { store with commits := store.commits ++ [row] } ∧
      ∀ known ∈ store.commits, known.messageId ≠ row.messageId := by
  unfold insertCommit at h
  split at h
  · cases h
  rename_i hne
  refine ⟨(Except.ok.inj h).symm, ?_⟩
  intro known hk heq
  exact hne (any_eq_true.mpr ⟨known, hk, by simp [heq]⟩)

structure Aside (store store' : DocumentStore) : Prop extends SameJournal store store' where
  commits : store'.commits = store.commits

theorem Aside.refl (store : DocumentStore) : Aside store store := ⟨⟨rfl, rfl, rfl⟩, rfl⟩

theorem Aside.trans (h : Aside store store') (h' : Aside store' store'') : Aside store store'' :=
  ⟨h.toSameJournal.trans h'.toSameJournal, h'.commits.trans h.commits⟩

theorem insertOpAuthor_aside {row : OpAuthorRow} (h : store.insertOpAuthor row = .ok store') :
    Aside store store' := by
  unfold insertOpAuthor at h
  split at h
  · cases h
  · split at h <;> cases h
    · exact Aside.refl store
    · exact ⟨⟨rfl, rfl, rfl⟩, rfl⟩

theorem insertOpAuthorRange_aside {row : OpAuthorRangeRow}
    (h : store.insertOpAuthorRange row = .ok store') : Aside store store' := by
  unfold insertOpAuthorRange at h
  split at h
  · cases h
  · split at h <;> cases h
    · exact Aside.refl store
    · exact ⟨⟨rfl, rfl, rfl⟩, rfl⟩

theorem addAnonymousEdits_aside (publicEdit : Bool) (edits : Nat) (now : Millis) :
    Aside store (store.addAnonymousEdits publicEdit edits now) := by
  unfold addAnonymousEdits
  split
  · exact Aside.refl store
  · exact ⟨⟨rfl, rfl, rfl⟩, rfl⟩

end DocumentStore

open DocumentStore

variable {now : Millis} {last : Nat} {db db' : Database} {prepared : List PreparedCommit}

variable {commits : List PreparedCommit}

variable {auth : AuthorityTables} {validated : List Author} {snapshot : Bytes}

namespace Room

variable {store store' : DocumentStore}

variable {author : Author}

theorem insertOpAuthors_aside {operations : List Operation}
    (h : insertOpAuthors author now operations store = .ok store') : Aside store store' := by
  induction operations generalizing store with
  | nil => rw [← Except.ok.inj h]; exact Aside.refl store
  | cons operation operations ih =>
    unfold insertOpAuthors at h
    cases hi : store.insertOpAuthor ⟨operation.origin, operation.seq, author, now⟩ with
    | error error => rw [hi] at h; cases h
    | ok mid =>
      rw [hi] at h
      exact (insertOpAuthor_aside hi).trans (ih h)

theorem insertOpAuthorRanges_aside {ranges : List AcceptedRange}
    (h : insertOpAuthorRanges author now ranges store = .ok store') : Aside store store' := by
  induction ranges generalizing store with
  | nil => rw [← Except.ok.inj h]; exact Aside.refl store
  | cons range ranges ih =>
    unfold insertOpAuthorRanges at h
    cases hi : store.insertOpAuthorRange ⟨range, author, now⟩ with
    | error error => rw [hi] at h; cases h
    | ok mid =>
      rw [hi] at h
      exact (insertOpAuthorRange_aside hi).trans (ih h)

/-! ## Numbering -/

def Numbered : Nat → List PreparedCommit → Nat → Prop
  | revision, [], last => last = revision
  | revision, commit :: commits, last =>
    commit.revision = (if commit.action.changes then revision + 1 else revision) ∧
      Numbered commit.revision commits last

theorem numbered_snoc {revision : Nat} {commit : PreparedCommit}
    (h : Numbered revision commits last)
    (hc : commit.revision = if commit.action.changes then last + 1 else last) :
    Numbered revision (commits ++ [commit]) commit.revision := by
  induction commits generalizing revision with
  | nil =>
    have hl : last = revision := h
    rw [hl] at hc
    exact ⟨hc, rfl⟩
  | cons c commits ih => exact ⟨h.1, ih h.2⟩

theorem numbered_le {revision : Nat}
    (h : Numbered revision commits last) :
    revision ≤ last ∧ ∀ commit ∈ commits, revision ≤ commit.revision ∧ commit.revision ≤ last := by
  induction commits generalizing revision with
  | nil => exact ⟨Nat.le_of_eq h.symm, fun _ hc => by cases hc⟩
  | cons c commits ih =>
    obtain ⟨hc, hrest⟩ := h
    obtain ⟨hle, hall⟩ := ih hrest
    have hstep : revision ≤ c.revision := by
      rw [hc]
      split <;> omega
    refine ⟨Nat.le_trans hstep hle, fun commit hmem => ?_⟩
    rcases mem_cons.mp hmem with rfl | hmem
    · exact ⟨hstep, hle⟩
    · exact ⟨Nat.le_trans hstep (hall commit hmem).1, (hall commit hmem).2⟩

theorem writeAction_numbered {commit : PreparedCommit} (hs : store.Sound)
    (hn : commit.revision = if commit.action.changes then store.revision + 1 else store.revision)
    (h : writeAction commit store = .ok store') :
    store'.Sound ∧ store'.revision = commit.revision ∧ store'.commits = store.commits := by
  unfold writeAction at h
  cases ha : commit.action with
  | receipt =>
    rw [ha] at h hn
    cases h
    exact ⟨hs, hn.symm, rfl⟩
  | update journal operations chars =>
    rw [ha] at h hn
    simp only at h
    cases hi : store.insertUpdate ⟨commit.revision, journal, commit.actor.author, commit.committedAt⟩ with
    | error error => rw [hi] at h; cases h
    | ok mid =>
      rw [hi] at h
      have haside := insertOpAuthors_aside h
      obtain ⟨hsound, hrev⟩ := insertUpdate_sound hs (by rw [hn]; exact Nat.lt_succ_self _) hi
      refine ⟨haside.sound hsound, haside.revision.trans hrev, ?_⟩
      rw [haside.commits, insertUpdate_ok hi]
  | snapshot compact ranges chars =>
    rw [ha] at h hn
    simp only at h
    cases hi : insertOpAuthorRanges commit.actor.author commit.committedAt ranges store with
    | error error => rw [hi] at h; cases h
    | ok mid =>
      rw [hi] at h
      have haside := insertOpAuthorRanges_aside hi
      cases h
      have hle : mid.revision ≤ commit.revision := by
        rw [haside.revision, hn]
        exact Nat.le_succ _
      obtain ⟨hsound, hrev⟩ := setSnapshot_sound (haside.sound hs) compact hle
      exact ⟨hsound, hrev, haside.commits⟩

def FreshIds (known : List CommitRow) (rows : List CommitRow) : Prop :=
  rows.Pairwise (fun a b => a.messageId ≠ b.messageId) ∧
    ∀ row ∈ known, ∀ new ∈ rows, row.messageId ≠ new.messageId

theorem writeCommits_numbered
    (hs : store.Sound)
    (hn : Numbered store.revision commits last)
    (h : writeCommits auth now validated commits store = .ok store') :
    store'.Sound ∧ store'.revision = last ∧
      store'.commits = store.commits ++ commits.map PreparedCommit.row ∧
      FreshIds store.commits (commits.map PreparedCommit.row) := by
  induction commits generalizing store validated with
  | nil =>
    cases h
    refine ⟨hs, hn.symm, by rw [map_nil, append_nil], List.Pairwise.nil, ?_⟩
    exact fun _ _ _ hnew => by cases hnew
  | cons commit commits ih =>
    unfold writeCommits at h
    split at h
    · cases h
    cases hw : writeAction commit store with
    | error error => rw [hw] at h; cases h
    | ok mid =>
      rw [hw] at h
      simp only at h
      cases hi : mid.insertCommit commit.row with
      | error error => rw [hi] at h; cases h
      | ok mid' =>
        rw [hi] at h
        obtain ⟨hms, hmr, hmc⟩ := writeAction_numbered hs hn.1 hw
        obtain ⟨hmid', hfresh⟩ := insertCommit_ok hi
        have hj : SameJournal mid mid' := by rw [hmid']; exact ⟨rfl, rfl, rfl⟩
        have hc' : mid'.commits = store.commits ++ [commit.row] := by rw [hmid', ← hmc]
        have hrev : mid'.revision = commit.revision := hj.revision.trans hmr
        obtain ⟨hs', hl, hcs, hp, hf⟩ := ih (hj.sound hms) (by rw [hrev]; exact hn.2) h
        refine ⟨hs', hl, ?_, ?_, ?_⟩
        · rw [hcs, hc', map_cons, append_assoc, singleton_append]
        · rw [map_cons]
          refine pairwise_cons.mpr ⟨fun row hrow => ?_, hp⟩
          exact hf commit.row (by rw [hc']; exact mem_append_right _ (mem_singleton.mpr rfl))
            row hrow
        · intro row hrow new hnew
          rw [map_cons] at hnew
          rcases mem_cons.mp hnew with rfl | hnew
          · exact hfresh row (by rw [hmc]; exact hrow)
          · exact hf row (by rw [hc']; exact mem_append_left _ hrow) new hnew

theorem commitTx_ok {epoch nextRevision : Nat}
    {compact : Option Bytes}
    (h : commitTx db epoch now prepared compact nextRevision = .ok db') :
    requireLiveEpoch db.auth epoch = .ok () ∧ db'.auth = db.auth ∧
      ∃ written aside, writeCommits db.auth now [] prepared db.store = .ok written ∧
        Aside written aside ∧
        db'.store = compact.elim aside fun snapshot => aside.compactAt snapshot nextRevision := by
  unfold commitTx at h
  cases hl : requireLiveEpoch db.auth epoch with
  | error error => rw [hl] at h; cases h
  | ok u =>
    rw [hl] at h
    simp only at h
    cases hw : writeCommits db.auth now [] prepared db.store with
    | error error => rw [hw] at h; cases h
    | ok written =>
      rw [hw] at h
      simp only at h
      cases h
      refine ⟨rfl, rfl, written, _, rfl, ?_, rfl⟩
      refine Aside.trans ?_ (addAnonymousEdits_aside _ _ _)
      cases batchMetadata prepared with
      | none => exact Aside.refl _
      | some edit => exact ⟨⟨rfl, rfl, rfl⟩, rfl⟩

theorem commitTx_numbered {epoch nextRevision : Nat}
    {compact : Option Bytes} (hs : db.store.Sound)
    (hn : Numbered db.store.revision prepared nextRevision)
    (h : commitTx db epoch now prepared compact nextRevision = .ok db') :
    db'.store.Sound ∧ db'.store.revision = nextRevision ∧
      FreshIds db.store.commits (prepared.map PreparedCommit.row) ∧
      (∀ row ∈ db'.store.commits, row ∈ db.store.commits ∨ row ∈ prepared.map PreparedCommit.row) ∧
      ∀ row, row ∈ db.store.commits ∨ row ∈ prepared.map PreparedCommit.row →
        row ∈ db'.store.commits ∨ row.revision + idempotencyReceiptWindow < db'.store.revision := by
  obtain ⟨-, -, written, aside, hw, haside, hstore⟩ := commitTx_ok h
  obtain ⟨hws, hwr, hwc, hfresh⟩ := writeCommits_numbered hs hn hw
  have hac : aside.commits = db.store.commits ++ prepared.map PreparedCommit.row := by
    rw [haside.commits, hwc]
  have hrev : aside.revision = nextRevision := haside.revision.trans hwr
  cases compact with
  | none =>
    simp only [Option.elim] at hstore
    rw [hstore]
    refine ⟨haside.sound hws, hrev, hfresh, ?_, ?_⟩
    · intro row hrow
      rw [hac] at hrow
      exact mem_append.mp hrow
    · intro row hrow
      rw [hac]
      exact Or.inl (mem_append.mpr hrow)
  | some snapshot =>
    simp only [Option.elim] at hstore
    rw [hstore]
    obtain ⟨hsound, hr, hkept, hgone⟩ := compactAt_sound (haside.sound hws) snapshot
      (Nat.le_of_eq hrev)
    refine ⟨hsound, hr, hfresh, ?_, ?_⟩
    · intro row hrow
      have hmem := hkept row hrow
      rw [hac] at hmem
      exact mem_append.mp hmem
    · intro row hrow
      rw [hr]
      exact hgone row (by rw [hac]; exact mem_append.mpr hrow)

theorem compactTx_ok {revision : Nat}
    (h : compactTx db snapshot revision = .ok db') :
    db.auth.live ∧ db' = { db with store := db.store.compactAt snapshot revision } := by
  unfold compactTx at h
  split at h
  · cases h
  · rename_i hl
    exact ⟨by simpa using hl, (Except.ok.inj h).symm⟩

end Room

/-! ## Content -/

section
variable {E : Engine} {κ : Type} {content : E.Doc → κ}

def snapshotBase (E : Engine) (store : DocumentStore) : Option E.Doc :=
  match store.snapshot with
  | none => some E.new
  | some snapshot => (E.applySnapshotBytes E.new snapshot).map (·.1)

variable {doc : E.Doc}

theorem applyRows_append {revision : Nat} {rows : List UpdateRow} :
    applyRows E doc revision (rows ++ [row]) =
      (applyRows E doc revision rows).bind fun state =>
        (E.applyBytes state.1 row.payload).map fun after => (after, row.revision) := by
  induction rows generalizing doc revision with
  | nil =>
    simp only [nil_append, applyRows, Option.bind_some]
    cases E.applyBytes doc row.payload <;> rfl
  | cons r rows ih =>
    simp only [cons_append, applyRows]
    cases E.applyBytes doc r.payload with
    | none => rfl
    | some after => exact ih

theorem applyRows_revision {after : E.Doc} {revision : Nat} {rows : List UpdateRow}
    (h : applyRows E doc revision rows = some (after, last)) :
    last = match rows.getLast? with
      | some row => row.revision
      | none => revision := by
  induction rows generalizing doc revision with
  | nil => exact (Prod.mk.inj (Option.some.inj h)).2.symm
  | cons row rows ih =>
    unfold applyRows at h
    cases ha : E.applyBytes doc row.payload with
    | none => rw [ha] at h; cases h
    | some mid =>
      rw [ha] at h
      rw [ih h, getLast?_cons]
      cases rows.getLast? <;> rfl

theorem hydrateDocument_eq {store : DocumentStore} (hs : store.Sound) :
    hydrateDocument E store =
      (snapshotBase E store).bind fun base => applyRows E base store.snapshotRevision store.updates := by
  have hfilter : store.updates.filter (fun row => decide (store.snapshotRevision < row.revision)) =
      store.updates := filter_eq_self.mpr fun row hrow => decide_eq_true (hs.above row hrow)
  have hsort : store.updates.insertionSort (fun a b => a.revision ≤ b.revision) = store.updates :=
    List.Pairwise.insertionSort_eq (hs.sorted.imp fun h => Nat.le_of_lt h)
  unfold hydrateDocument snapshotBase
  simp only [hfilter, hsort]
  cases store.snapshot with
  | none => rfl
  | some snapshot =>
    simp only
    cases E.applySnapshotBytes E.new snapshot <;> rfl

theorem hydrateDocument_revision {store : DocumentStore} (hs : store.Sound)
    (h : hydrateDocument E store = some (doc, last)) : last = store.revision := by
  rw [hydrateDocument_eq hs] at h
  obtain ⟨base, -, hrows⟩ := Option.bind_eq_some_iff.mp h
  exact applyRows_revision hrows

/-- Hydration succeeds with a replica of content `c`, at the durable revision. -/
def HydratesTo (E : Engine) (content : E.Doc → κ) (store : DocumentStore) (c : κ) : Prop :=
  ∃ doc, hydrateDocument E store = some (doc, store.revision) ∧ content doc = c

theorem HydratesTo.congr {store store' : DocumentStore} {c : κ} (h : HydratesTo E content store c)
    (hj : SameJournal store store') : HydratesTo E content store' c := by
  obtain ⟨doc, hdoc, hc⟩ := h
  exact ⟨doc, by rw [hj.hydrate, hj.revision]; exact hdoc, hc⟩

theorem insertUpdate_hydrates {store store' : DocumentStore} {before after : E.Doc}
    (hs : store.Sound) (hr : store.revision < row.revision)
    (h : HydratesTo E content store (content before)) (hc : E.Carries content row.payload before after)
    (hi : store.insertUpdate row = .ok store') : HydratesTo E content store' (content after) := by
  obtain ⟨doc, hdoc, hcontent⟩ := h
  obtain ⟨doc', happly, hcontent'⟩ := hc doc hcontent
  obtain ⟨hs', hr'⟩ := insertUpdate_sound hs hr hi
  refine ⟨doc', ?_, hcontent'⟩
  rw [hr', hydrateDocument_eq hs']
  rw [hydrateDocument_eq hs] at hdoc
  obtain ⟨base, hbase, hrows⟩ := Option.bind_eq_some_iff.mp hdoc
  rw [insertUpdate_ok hi]
  refine Option.bind_eq_some_iff.mpr ⟨base, hbase, ?_⟩
  simp only [applyRows_append, hrows, Option.bind_some, happly, Option.map_some]

theorem setSnapshot_hydrates {store : DocumentStore} {revision : Nat}
    (hs : store.Sound) (hr : store.revision ≤ revision) (hb : E.Rebuilds content snapshot doc) :
    HydratesTo E content (store.setSnapshot snapshot revision) (content doc) := by
  obtain ⟨doc', v, happly, hcontent⟩ := hb
  obtain ⟨hs', hr'⟩ := setSnapshot_sound hs snapshot hr
  refine ⟨doc', ?_, hcontent⟩
  rw [hr', hydrateDocument_eq hs', setSnapshot_updates hs snapshot hr]
  have hbase : snapshotBase E (store.setSnapshot snapshot revision) = some doc' := by
    simp only [snapshotBase, setSnapshot, happly, Option.map_some]
  rw [hbase]
  rfl

namespace Room

/-- The bytes an action commits take the content of `before` to the content of `after`. -/
def ActionReplays (E : Engine) (content : E.Doc → κ) (before : E.Doc) (action : CommitAction)
    (after : E.Doc) : Prop :=
  match action with
  | .receipt => content after = content before
  | .update journal _ _ => E.Carries content journal before after
  | .snapshot compact _ _ => E.Rebuilds content compact after

def Replays (E : Engine) (content : E.Doc → κ) : E.Doc → List PreparedCommit → E.Doc → Prop
  | before, [], after => content after = content before
  | before, commit :: commits, after =>
    ∃ mid, ActionReplays E content before commit.action mid ∧ Replays E content mid commits after

theorem replays_content {before after after' : E.Doc}
    (h : Replays E content before commits after) (ha : content after' = content after) :
    Replays E content before commits after' := by
  induction commits generalizing before with
  | nil => exact ha.trans h
  | cons commit commits ih =>
    obtain ⟨mid, hm, hrest⟩ := h
    exact ⟨mid, hm, ih hrest⟩

theorem actionReplays_before {before before' after : E.Doc} {action : CommitAction}
    (h : ActionReplays E content before action after) (hb : content before' = content before) :
    ActionReplays E content before' action after := by
  cases action with
  | receipt =>
    have hr : content after = content before := h
    exact hr.trans hb.symm
  | update journal operations chars => exact fun doc hdoc => h doc (hdoc.trans hb)
  | snapshot compact ranges chars => exact h

theorem replays_snoc {before mid after : E.Doc}
    {commit : PreparedCommit} (h : Replays E content before commits mid)
    (hc : ActionReplays E content mid commit.action after) :
    Replays E content before (commits ++ [commit]) after := by
  induction commits generalizing before with
  | nil => exact ⟨after, actionReplays_before hc h.symm, rfl⟩
  | cons c commits ih =>
    obtain ⟨next, hn, hrest⟩ := h
    exact ⟨next, hn, ih hrest⟩

theorem writeAction_hydrates {store store' : DocumentStore} {commit : PreparedCommit}
    {before after : E.Doc} (hs : store.Sound)
    (hn : commit.revision = if commit.action.changes then store.revision + 1 else store.revision)
    (hh : HydratesTo E content store (content before))
    (hr : ActionReplays E content before commit.action after)
    (h : writeAction commit store = .ok store') : HydratesTo E content store' (content after) := by
  unfold writeAction at h
  cases ha : commit.action with
  | receipt =>
    rw [ha] at h hr
    have hc : content after = content before := hr
    rw [← Except.ok.inj h, hc]
    exact hh
  | update journal operations chars =>
    rw [ha] at h hn hr
    have hcarries : E.Carries content journal before after := hr
    simp only at h
    cases hi : store.insertUpdate ⟨commit.revision, journal, commit.actor.author, commit.committedAt⟩ with
    | error error => rw [hi] at h; cases h
    | ok mid =>
      rw [hi] at h
      refine (insertUpdate_hydrates hs ?_ hh hcarries hi).congr (insertOpAuthors_aside h).toSameJournal
      rw [hn]
      exact Nat.lt_succ_self _
  | snapshot compact ranges chars =>
    rw [ha] at h hn hr
    simp only at h
    cases hi : insertOpAuthorRanges commit.actor.author commit.committedAt ranges store with
    | error error => rw [hi] at h; cases h
    | ok mid =>
      rw [hi] at h
      have haside := insertOpAuthorRanges_aside hi
      cases h
      refine setSnapshot_hydrates (haside.sound hs) ?_ hr
      rw [haside.revision, hn]
      exact Nat.le_succ _

theorem writeCommits_hydrates
    {store store' : DocumentStore} {before after : E.Doc}
    (hs : store.Sound) (hn : Numbered store.revision commits last)
    (hh : HydratesTo E content store (content before))
    (hr : Replays E content before commits after)
    (h : writeCommits auth now validated commits store = .ok store') :
    HydratesTo E content store' (content after) := by
  induction commits generalizing store validated before with
  | nil =>
    have hc : content after = content before := hr
    rw [← Except.ok.inj h, hc]
    exact hh
  | cons commit commits ih =>
    obtain ⟨mid, hm, hrest⟩ := hr
    unfold writeCommits at h
    split at h
    · cases h
    cases hw : writeAction commit store with
    | error error => rw [hw] at h; cases h
    | ok written =>
      rw [hw] at h
      simp only at h
      cases hi : written.insertCommit commit.row with
      | error error => rw [hi] at h; cases h
      | ok inserted =>
        rw [hi] at h
        have hj : SameJournal written inserted := by
          rw [(insertCommit_ok hi).1]
          exact ⟨rfl, rfl, rfl⟩
        obtain ⟨hws, hwr, -⟩ := writeAction_numbered hs hn.1 hw
        have hrev : inserted.revision = commit.revision := hj.revision.trans hwr
        exact ih (hj.sound hws) (by rw [hrev]; exact hn.2)
          ((writeAction_hydrates hs hn.1 hh hm hw).congr hj) hrest h

theorem commitTx_hydrates {epoch nextRevision : Nat}
    {compact : Option Bytes} {before after : E.Doc}
    (hs : db.store.Sound) (hn : Numbered db.store.revision prepared nextRevision)
    (hh : HydratesTo E content db.store (content before))
    (hr : Replays E content before prepared after)
    (hb : ∀ snapshot, compact = some snapshot → E.Rebuilds content snapshot after)
    (h : commitTx db epoch now prepared compact nextRevision = .ok db') :
    HydratesTo E content db'.store (content after) := by
  obtain ⟨-, -, written, aside, hw, haside, hstore⟩ := commitTx_ok h
  obtain ⟨hws, hwr, -⟩ := writeCommits_numbered hs hn hw
  have hh' := (writeCommits_hydrates hs hn hh hr hw).congr haside.toSameJournal
  rw [hstore]
  cases compact with
  | none => exact hh'
  | some snapshot =>
    have hle : aside.revision ≤ nextRevision := Nat.le_of_eq (haside.revision.trans hwr)
    exact (setSnapshot_hydrates (haside.sound hws) hle (hb snapshot rfl)).congr ⟨rfl, rfl, rfl⟩

theorem compactTx_hydrates
    (hs : db.store.Sound) (hb : E.Rebuilds content snapshot doc)
    (h : compactTx db snapshot db.store.revision = .ok db') :
    HydratesTo E content db'.store (content doc) := by
  rw [(compactTx_ok h).2]
  exact (setSnapshot_hydrates hs (Nat.le_refl _) hb).congr ⟨rfl, rfl, rfl⟩

end Room

end

end Marks
