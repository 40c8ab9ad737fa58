import Marks.AssetsSound
import Marks.Purge

/-! # Purges remove a document and what refers to it

A purge succeeds exactly for the owner of a document deleted long enough ago, with every statement carried out; no
foreign key stands in its way. What it leaves is the database without the document: every table without the rows that
belong to it, and the blobs without those that only it referred to. Anything else leaves the database as it was. -/

namespace Marks.Purge

open List

open Assets (Hash DocumentId)
open Transactions

variable {Data : Type}

/-! ## The database without a document -/

variable {hash : Hash}

namespace Database
variable (db : Database Data) (id : DocumentId)

def commentDocument (comment : CommentId) : Option DocumentId :=
  (Rows.load (·.id) db.comments.rows comment).map (·.documentId)

def runDocument (run : RunId) : Option DocumentId := (Rows.load (·.id) db.runs.rows run).map (·.documentId)

def referredBy (hash : Hash) : Bool := db.assets.rows.any fun row => row.documentId == id && row.contentHash == hash

def referredElsewhere (hash : Hash) : Bool :=
  db.assets.rows.any fun row => row.documentId != id && row.contentHash == hash

def without : Database Data where
  documents := db.documents.delete (·.id == id)
  comments := db.comments.delete (·.documentId == id)
  replies := db.replies.delete fun row => db.commentDocument row.commentId == some id
  versions := db.versions.delete (·.documentId == id)
  versionBlobs := db.versionBlobs.delete (·.documentId == id)
  leaf := fun table => (db.leaf table).filter (·.documentId != id)
  blobs := db.blobs.delete fun row => db.referredBy id row.contentHash && !db.referredElsewhere id row.contentHash
  assets := db.assets.delete (·.documentId == id)
  runs := db.runs.delete (·.documentId == id)
  events := db.events.filter fun row => db.runDocument row.runId != some id
  receipts := db.receipts.filter fun row => db.runDocument row.runId != some id

def assetHashes : List Hash := (db.assets.rows.filter (·.documentId == id)).map (·.contentHash)

def reclaimed : List Hash :=
  (db.assetHashes id).filter fun hash => db.hasBlob hash && !db.referredElsewhere id hash

variable {db} {id}

theorem mem_assetHashes : hash ∈ db.assetHashes id ↔ db.referredBy id hash = true := by
  unfold assetHashes referredBy
  simp only [mem_map, mem_filter, any_eq_true, Bool.and_eq_true, beq_iff_eq, and_assoc]

theorem assetHashes_nodup : (db.assetHashes id).Nodup := by
  unfold assetHashes
  have hkeys : ((db.assets.rows.filter (·.documentId == id)).map fun row => (row.documentId, row.contentHash)).Nodup :=
    db.assets.keys.sublist (List.filter_sublist.map _)
  apply List.Nodup.map_on
  · intro a ha b hb h
    have hdocument : a.documentId = b.documentId :=
      (beq_iff_eq.mp (mem_filter.mp ha).2).trans (beq_iff_eq.mp (mem_filter.mp hb).2).symm
    exact inj_on_of_nodup_map hkeys ha hb (Prod.ext hdocument h)
  · exact hkeys.of_map

end Database

/-! ## What the statements do -/

variable {reclaim : List Hash}

section
variable {stored : Statement → Bool} {db db' : Database Data} {id : DocumentId}

theorem yields_query {α : Type} {s : Statement} {value : Database Data → α} {a : α} :
    (query stored s value).Yields db a db' ↔ stored s = true ∧ a = value db ∧ db' = db := by
  unfold query
  rw [Work.yields_statement, Prod.mk.injEq, eq_comm (b := a), eq_comm (b := db')]

variable {u : Unit}

theorem yields_execute {s : Statement} {allowed : Database Data → Bool} {change : Database Data → Database Data}
    : (execute stored s allowed change).Yields db u db' ↔
      stored s = true ∧ allowed db = true ∧ db' = change db := by
  unfold execute
  rw [Work.yields_statement, Bool.and_eq_true, Prod.mk.injEq, eq_comm (b := db'), and_assoc]
  simp

theorem yields_deleteTables {table : DocumentTable} {tables : List DocumentTable} :
    (deleteTables stored id (table :: tables)).Yields db u db' ↔ stored (.deleteFrom table) = true ∧
      db.unreferred id table = true ∧ (deleteTables stored id tables).Yields (db.deleteFrom id table) u db' := by
  have hunfold : (deleteTables stored id (table :: tables) : Work (Database Data) ApiError Unit) =
      (execute stored (.deleteFrom table) (·.unreferred id table) (·.deleteFrom id table) >>= fun _ =>
        deleteTables stored id tables) := rfl
  rw [hunfold, Work.yields_bind]
  simp only [yields_execute]
  constructor
  · rintro ⟨_, t, ⟨hs, hallowed, rfl⟩, h⟩
    exact ⟨hs, hallowed, h⟩
  · rintro ⟨hs, hallowed, h⟩
    exact ⟨(), _, ⟨hs, hallowed, rfl⟩, h⟩

theorem mem_leaves (table : Leaf) : table ∈ leaves := by
  cases table <;> simp [leaves]

theorem yields_deleteLeaves {tables : List Leaf} :
    (deleteTables stored id (tables.map .leaf)).Yields db u db' ↔
      (∀ table ∈ tables, stored (.deleteFrom (.leaf table)) = true) ∧
      db' = { db with
        leaf := fun table =>
          if table ∈ tables then (db.leaf table).filter (·.documentId != id) else db.leaf table } := by
  induction tables generalizing db with
  | nil => simp [deleteTables, Work.yields_pure]
  | cons table tables ih =>
    rw [map_cons, yields_deleteTables, ih, forall_mem_cons, and_assoc]
    have hleaf : (fun other =>
        if other ∈ tables then ((db.deleteFrom id (.leaf table)).leaf other).filter (·.documentId != id)
        else (db.deleteFrom id (.leaf table)).leaf other) =
        fun other =>
          if other ∈ table :: tables then (db.leaf other).filter (·.documentId != id) else db.leaf other := by
      funext other
      simp only [Database.deleteFrom, mem_cons]
      by_cases hother : other = table
      · simp [hother, filter_filter]
      · simp [hother]
    rw [hleaf]
    have hunreferred : db.unreferred id (.leaf table) = true := rfl
    rw [hunreferred]
    simp only [true_and]
    rfl

def Database.emptied (db : Database Data) (id : DocumentId) : Database Data :=
  { db with
    comments := db.comments.delete (·.documentId == id)
    replies := db.replies.delete fun row => db.commentDocument row.commentId == some id
    versions := db.versions.delete (·.documentId == id)
    versionBlobs := db.versionBlobs.delete (·.documentId == id)
    leaf := fun table => (db.leaf table).filter (·.documentId != id)
    assets := db.assets.delete (·.documentId == id) }

theorem replies_deleted : (db.deleteReplies id).replies =
    db.replies.delete fun row => db.commentDocument row.commentId == some id := by
  unfold Database.deleteReplies Database.commentDocument
  apply Table.delete_congr
  intro row _
  exact db.comments.any_load

theorem yields_documentTables :
    (deleteTables stored id documentTables).Yields ((db.deleteReplies id).deleteAssets id) u db' ↔
      (∀ table ∈ documentTables, stored (.deleteFrom table) = true) ∧ db' = db.emptied id := by
  have hcomments : ((db.deleteReplies id).deleteAssets id).unreferred id .documentComments = true := by
    unfold Database.unreferred Database.deleteAssets Database.deleteReplies
    simp only [Table.rows_delete, all_filter]
    rw [all_eq_true]
    intro row _
    simp
  have hversions : (((db.deleteReplies id).deleteAssets id).deleteFrom id .documentComments).unreferred id
      .documentVersions = true := rfl
  have hversionBlobs : ((((db.deleteReplies id).deleteAssets id).deleteFrom id .documentComments).deleteFrom id
      .documentVersions).unreferred id .documentVersionBlobs = true := by
    unfold Database.unreferred Database.deleteFrom
    simp only [Table.rows_delete, all_eq_true, mem_filter]
    intro row hrow
    rw [Bool.not_eq_true', any_eq_false]
    intro blob _ h
    simp only [Bool.and_eq_true, beq_iff_eq] at h
    have hrow := hrow.2
    rw [← h.1.2, h.1.1, beq_self_eq_true] at hrow
    cases hrow
  have hleaf : (fun table => if table ∈ leaves then (db.leaf table).filter (·.documentId != id) else db.leaf table) =
      fun table => (db.leaf table).filter (·.documentId != id) := by
    funext table
    rw [if_pos (mem_leaves table)]
  have hemptied : ({ (((db.deleteReplies id).deleteAssets id).deleteFrom id .documentComments).deleteFrom id
      .documentVersions |>.deleteFrom id .documentVersionBlobs with
      leaf := fun table =>
        if table ∈ leaves then (db.leaf table).filter (·.documentId != id) else db.leaf table } : Database Data) =
      db.emptied id := by
    unfold Database.emptied
    rw [hleaf, ← replies_deleted]
    rfl
  rw [← hemptied]
  unfold documentTables
  rw [cons_append, cons_append, cons_append, nil_append, yields_deleteTables, yields_deleteTables,
    yields_deleteTables, yields_deleteLeaves, hcomments, hversions, hversionBlobs]
  simp only [forall_mem_cons, forall_mem_map, true_and, and_assoc]
  rfl

/-! ### The blobs -/

def Database.withoutBlobs (db : Database Data) (hashes : List Hash) : Database Data :=
  { db with
    blobs := db.blobs.delete fun row => hashes.contains row.contentHash && !db.references row.contentHash }

theorem hash32_of_hasBlob (h : db.hasBlob hash = true) : hash32 hash = some hash := by
  obtain ⟨row, -, heq⟩ := any_eq_true.mp h
  unfold hash32
  rw [if_pos ((beq_iff_eq.mp heq) ▸ row.sized)]

theorem removed_deleteBlob :
    ((db.deleteBlob hash).1 == 1) = (db.hasBlob hash && !db.references hash) := by
  show (db.blobs.rows.countP (fun row => row.contentHash == hash && !db.references hash) == 1) = _
  rw [Table.countP_key]
  · unfold Database.hasBlob
    cases db.references hash with
    | true => simp
    | false =>
      simp only [Bool.not_false, Bool.and_true]
      cases db.blobs.rows.any fun row => row.contentHash == hash <;> rfl
  · intro a b ha hb
    rw [Bool.and_eq_true, beq_iff_eq] at ha hb
    exact ha.1.trans hb.1.symm

theorem hasBlob_deleteBlob {other : Hash} (h : other ≠ hash) :
    (db.deleteBlob hash).2.hasBlob other = db.hasBlob other := by
  unfold Database.hasBlob Database.deleteBlob
  rw [Table.rows_delete, any_filter]
  congr 1
  funext row
  cases heq : row.contentHash == other with
  | false => rw [Bool.and_false]
  | true =>
    have hne : (row.contentHash == hash) = false := by
      rw [beq_eq_false_iff_ne, beq_iff_eq.mp heq]
      exact h
    simp [hne]

theorem withoutBlobs_nil : db.withoutBlobs [] = db := by
  unfold Database.withoutBlobs
  rw [Table.delete_none]
  intro _ _
  rfl

variable {hashes : List Hash}

theorem withoutBlobs_cons :
    (db.deleteBlob hash).2.withoutBlobs hashes = db.withoutBlobs (hash :: hashes) := by
  have hblobs : (db.blobs.delete fun row : BlobRow Data => row.contentHash == hash && !db.references hash).delete
      (fun row => hashes.contains row.contentHash && !db.references row.contentHash) =
      db.blobs.delete fun row => (hash :: hashes).contains row.contentHash && !db.references row.contentHash := by
    rw [Table.delete_delete]
    apply Table.delete_congr
    intro row _
    rw [contains_cons]
    cases heq : row.contentHash == hash with
    | false => simp
    | true =>
      rw [beq_iff_eq.mp heq]
      simp only [Bool.true_and, Bool.true_or]
      cases db.references hash <;> simp
  unfold Database.withoutBlobs
  rw [← hblobs]
  rfl

theorem yields_deleteBlobs {result : List Hash} (hn : hashes.Nodup) :
    (deleteBlobs stored reclaim hashes).Yields db result db' ↔
      (∀ hash ∈ hashes, stored (.deleteBlob hash) = true) ∧
      result = reclaim ++ hashes.filter (fun hash => db.hasBlob hash && !db.references hash) ∧
      db' = db.withoutBlobs hashes := by
  induction hashes generalizing db reclaim with
  | nil =>
    unfold deleteBlobs
    rw [Work.yields_pure, withoutBlobs_nil]
    simp
  | cons hash hashes ih =>
    obtain ⟨hfresh, hn⟩ := nodup_cons.mp hn
    have hfilter : hashes.filter (fun other => (db.deleteBlob hash).2.hasBlob other && !db.references other) =
        hashes.filter fun other => db.hasBlob other && !db.references other := by
      apply filter_congr
      intro other hmem
      have hne : other ≠ hash := by
        intro heq
        exact hfresh (heq ▸ hmem)
      rw [hasBlob_deleteBlob hne]
    have hrest : ∀ reclaim, (deleteBlobs stored reclaim hashes).Yields (db.deleteBlob hash).2 result db' ↔
        (∀ hash ∈ hashes, stored (.deleteBlob hash) = true) ∧
        result = reclaim ++ hashes.filter (fun other => db.hasBlob other && !db.references other) ∧
        db' = db.withoutBlobs (hash :: hashes) := by
      intro reclaim
      rw [ih hn, withoutBlobs_cons, ← hfilter]
      rfl
    unfold deleteBlobs
    rw [Work.yields_bind, forall_mem_cons, filter_cons]
    simp only [Work.yields_statement]
    constructor
    · rintro ⟨removed, t, ⟨hs, heq⟩, h⟩
      have hremoved : (db.deleteBlob hash).1 = removed := congrArg Prod.fst heq
      have ht : (db.deleteBlob hash).2 = t := congrArg Prod.snd heq
      rw [← hremoved, ← ht, removed_deleteBlob] at h
      cases hb : db.hasBlob hash && !db.references hash with
      | true =>
        rw [hb, if_pos rfl, Work.yields_bind] at h
        obtain ⟨hash', u, hfound, h⟩ := h
        obtain ⟨h32, rfl⟩ := Work.yields_found.mp hfound
        rw [hash32_of_hasBlob (Bool.and_eq_true_iff.mp hb).1] at h32
        cases h32
        obtain ⟨hss, hresult, hdb⟩ := (hrest _).mp h
        refine ⟨⟨hs, hss⟩, ?_, hdb⟩
        rw [hresult, append_assoc]
        rfl
      | false =>
        rw [hb, if_neg Bool.false_ne_true] at h
        obtain ⟨hss, hresult, hdb⟩ := (hrest _).mp h
        exact ⟨⟨hs, hss⟩, hresult, hdb⟩
    · rintro ⟨⟨hs, hss⟩, hresult, hdb⟩
      refine ⟨(db.deleteBlob hash).1, (db.deleteBlob hash).2, ⟨hs, rfl⟩, ?_⟩
      rw [removed_deleteBlob]
      cases hb : db.hasBlob hash && !db.references hash with
      | true =>
        rw [hb, if_pos rfl] at hresult
        rw [if_pos rfl, Work.yields_bind]
        refine ⟨hash, _, Work.yields_found.mpr ⟨hash32_of_hasBlob (Bool.and_eq_true_iff.mp hb).1, rfl⟩, ?_⟩
        refine (hrest _).mpr ⟨hss, ?_, hdb⟩
        rw [hresult, append_assoc]
        rfl
      | false =>
        rw [hb, if_neg Bool.false_ne_true] at hresult
        rw [if_neg Bool.false_ne_true]
        exact (hrest _).mpr ⟨hss, hresult, hdb⟩

/-! ### The asset store's purge -/

def Database.assetTables (db : Database Data) : Assets.AssetTables where
  blobs := db.blobs.rows.map (·.toBlobRow)
  assets := db.assets.rows.map (·.toAssetRow)

theorem hasBlob_assetTables : db.assetTables.hasBlob hash = db.hasBlob hash := any_map

theorem references_assetTables : db.assetTables.references hash = db.references hash := any_map

theorem deleteBlob_assetTables :
    db.assetTables.deleteBlob hash = ((db.deleteBlob hash).2.assetTables, (db.deleteBlob hash).1 == 1) := by
  unfold Assets.AssetTables.deleteBlob
  rw [removed_deleteBlob, hasBlob_assetTables, references_assetTables]
  have htables : (db.deleteBlob hash).2.assetTables = { db.assetTables with
      blobs := (db.blobs.rows.filter fun row => !(row.contentHash == hash && !db.references hash)).map
        (·.toBlobRow) } := rfl
  rw [htables]
  cases hb : db.hasBlob hash && !db.references hash with
  | true =>
    have hreferences : db.references hash = false := Bool.not_eq_true' _ ▸ (Bool.and_eq_true_iff.mp hb).2
    have hfilter : db.assetTables.blobs.filter (·.contentHash != hash) =
        (db.blobs.rows.filter fun row => !(row.contentHash == hash && !db.references hash)).map (·.toBlobRow) := by
      rw [hreferences]
      exact filter_map.trans (congrArg _ (filter_congr fun row _ => by simp [bne]))
    rw [if_pos rfl, hfilter]
  | false =>
    have hfilter : (db.blobs.rows.filter fun row => !(row.contentHash == hash && !db.references hash)) =
        db.blobs.rows := by
      rw [filter_eq_self]
      intro row hrow
      have hblob : row.contentHash == hash → db.hasBlob hash := fun heq => any_eq_true.mpr ⟨row, hrow, heq⟩
      grind
    rw [if_neg Bool.false_ne_true, hfilter]
    rfl

theorem deleteBlobs_assetTables {result : List Hash}
    (h : (deleteBlobs stored reclaim hashes).Yields db result db') :
    db.assetTables.deleteBlobs reclaim hashes = (db'.assetTables, result) := by
  induction hashes generalizing db reclaim with
  | nil =>
    obtain ⟨rfl, rfl⟩ := Work.yields_pure.mp h
    rfl
  | cons hash hashes ih =>
    unfold deleteBlobs at h
    rw [Work.yields_bind] at h
    obtain ⟨removed, t, hdelete, h⟩ := h
    obtain ⟨-, heq⟩ := Work.yields_statement.mp hdelete
    have hremoved : (db.deleteBlob hash).1 = removed := congrArg Prod.fst heq
    have ht : (db.deleteBlob hash).2 = t := congrArg Prod.snd heq
    show (db.assetTables.deleteBlob hash).1.deleteBlobs
      (if (db.assetTables.deleteBlob hash).2 then reclaim ++ [hash] else reclaim) hashes = _
    rw [deleteBlob_assetTables, hremoved, ht]
    cases hone : removed == 1 with
    | true =>
      rw [hone, if_pos rfl, Work.yields_bind] at h
      obtain ⟨hash', u, hfound, h⟩ := h
      obtain ⟨h32, rfl⟩ := Work.yields_found.mp hfound
      have hsame : hash' = hash := by grind [hash32]
      rw [hsame] at h
      exact ih h
    | false =>
      rw [hone, if_neg Bool.false_ne_true] at h
      exact ih h

/-! ### The document -/

theorem references_emptied : (db.emptied id).references hash = db.referredElsewhere id hash :=
  any_filter

theorem filter_emptied : (db.assetHashes id).filter (fun hash =>
    (db.emptied id).hasBlob hash && !(db.emptied id).references hash) = db.reclaimed id := by
  apply filter_congr
  intro hash _
  rw [references_emptied]
  rfl

theorem childless_emptied : ((db.emptied id).withoutBlobs hashes).childless id = true := by
  unfold Database.childless
  rw [Bool.and_eq_true, Bool.and_eq_true, Bool.and_eq_true]
  refine ⟨⟨⟨?_, ?_⟩, ?_⟩, ?_⟩
  · exact all_eq_true.mpr fun row hrow => (mem_filter.mp hrow).2
  · exact all_eq_true.mpr fun row hrow => (mem_filter.mp hrow).2
  · exact all_eq_true.mpr fun row hrow => (mem_filter.mp hrow).2
  · refine all_eq_true.mpr fun table _ => Bool.or_eq_true_iff.mpr (.inr ?_)
    exact all_eq_true.mpr fun row hrow => (mem_filter.mp hrow).2

theorem cascades_iff (row : RunPart Data) :
    (db.runs.rows.any fun run => run.documentId == id && run.id == row.runId) = (db.runDocument row.runId == some id) :=
  db.runs.any_load

theorem deleteDocument_emptied :
    ((db.emptied id).withoutBlobs (db.assetHashes id)).deleteDocument id = db.without id := by
  have hblobs : (db.blobs.delete fun row =>
        (db.assetHashes id).contains row.contentHash && !(db.emptied id).references row.contentHash) =
      db.blobs.delete fun row =>
        db.referredBy id row.contentHash && !db.referredElsewhere id row.contentHash := by
    apply Table.delete_congr
    intro row _
    have hcontains : (db.assetHashes id).contains row.contentHash = db.referredBy id row.contentHash := by
      rw [Bool.eq_iff_iff, contains_iff_mem, Database.mem_assetHashes]
    rw [hcontains, references_emptied]
  have hparts : ∀ parts : List (RunPart Data),
      (parts.filter fun row => !db.runs.rows.any fun run => run.documentId == id && run.id == row.runId) =
        parts.filter fun row => db.runDocument row.runId != some id := by
    intro parts
    apply filter_congr
    intro row _
    rw [cascades_iff]
    rfl
  unfold Database.without
  rw [← hblobs, ← hparts, ← hparts]
  rfl

/-! ## The purge -/

structure DocumentRow.Due (row : DocumentRow Data) (caller : Caller) (nowMs : Millis) : Prop where
  owned : requireDeletedDocumentOwner row.record (callerOwner caller) = true
  elapsed : saturatingAdd (row.record.deletedAtMs.getD 0) trashRetentionMs ≤ nowMs

structure Carried (stored : Statement → Bool) (db : Database Data) (id : DocumentId) : Prop where
  loadDocument : stored .loadDocument = true
  selectAssets : stored .selectAssets = true
  deleteReplies : stored .deleteReplies = true
  deleteAssets : stored .deleteAssets = true
  deleteFrom : ∀ table ∈ documentTables, stored (.deleteFrom table) = true
  deleteBlob : ∀ hash ∈ db.assetHashes id, stored (.deleteBlob hash) = true
  deleteDocument : stored .deleteDocument = true

theorem yields_loadDeletedDocument {row : DocumentRow Data} :
    (loadDeletedDocument stored id).Yields db row db' ↔ stored .loadDocument = true ∧
      db.documents.rows.find? (·.id == id) = some row ∧ row.record.deletedAtMs.isSome = true ∧ db' = db := by
  unfold loadDeletedDocument
  simp only [Work.yields_bind, yields_query, Work.yields_found, Work.yields_check, Work.yields_pure]
  constructor
  · rintro ⟨_, _, ⟨hs, rfl, rfl⟩, found, _, ⟨hload, rfl⟩, _, _, ⟨hdeleted, rfl⟩, rfl, rfl⟩
    exact ⟨hs, hload, hdeleted, rfl⟩
  · rintro ⟨hs, hload, hdeleted, rfl⟩
    exact ⟨_, _, ⟨hs, rfl, rfl⟩, row, _, ⟨hload, rfl⟩, (), _, ⟨hdeleted, rfl⟩, rfl, rfl⟩

theorem yields_purgeRows {caller : Caller} {nowMs : Millis} :
    (purgeRows stored caller id nowMs).Yields db reclaim db' ↔
      (∃ row, db.documents.rows.find? (·.id == id) = some row ∧ row.Due caller nowMs) ∧ Carried stored db id ∧
      reclaim = db.reclaimed id ∧ db' = db.without id := by
  unfold purgeRows requireRecoveryOwner
  simp only [Work.yields_bind, yields_loadDeletedDocument, Work.yields_check, yields_query, yields_execute,
    Work.yields_pure]
  constructor
  · rintro ⟨row, _, ⟨hload, hfind, hdeleted, rfl⟩, _, _, ⟨howned, rfl⟩, _, _, ⟨helapsed, rfl⟩, hashes, _,
      ⟨hselect, hhashes, rfl⟩, _, _, ⟨hreplies, -, rfl⟩, _, _, ⟨hassets, -, rfl⟩, _, _, htables, found, _, hblobs, _, _,
      ⟨hdocument, -, rfl⟩, rfl, rfl⟩
    obtain ⟨hfrom, rfl⟩ := yields_documentTables.mp htables
    change hashes = Database.assetHashes _ id at hhashes
    subst hhashes
    obtain ⟨hdeletes, hresult, rfl⟩ := (yields_deleteBlobs Database.assetHashes_nodup).mp hblobs
    rw [nil_append, filter_emptied] at hresult
    exact ⟨⟨row, hfind, howned, of_decide_eq_true helapsed⟩,
      ⟨hload, hselect, hreplies, hassets, hfrom, hdeletes, hdocument⟩, hresult, deleteDocument_emptied⟩
  · rintro ⟨⟨row, hfind, howned, helapsed⟩, hcarried, rfl, rfl⟩
    have hdeleted : row.record.deletedAtMs.isSome = true := (Bool.and_eq_true_iff.mp howned).1
    refine ⟨row, _, ⟨hcarried.loadDocument, hfind, hdeleted, rfl⟩, (), _, ⟨howned, rfl⟩, (), _,
      ⟨decide_eq_true helapsed, rfl⟩, _, _, ⟨hcarried.selectAssets, rfl, rfl⟩, (), _,
      ⟨hcarried.deleteReplies, trivial, rfl⟩, (), _, ⟨hcarried.deleteAssets, trivial, rfl⟩, (), _,
      yields_documentTables.mpr ⟨hcarried.deleteFrom, rfl⟩, db.reclaimed id, _, ?_, (), _,
      ⟨hcarried.deleteDocument, childless_emptied, deleteDocument_emptied.symm⟩, rfl, rfl⟩
    refine (yields_deleteBlobs Database.assetHashes_nodup).mpr ⟨hcarried.deleteBlob, ?_, rfl⟩
    exact filter_emptied.symm

end

/-! ## The request -/

/-- The request may purge the document, and the storage carries its transaction out. -/
structure Granted (stored : Statement → Bool) (request : PurgeRequest) (db : Database Data) (id : DocumentId) :
    Prop where
  documentId : request.documentId = some id
  caller : ∃ caller row, request.caller = some caller ∧ request.requireOrigin caller = true ∧
    db.documents.rows.find? (·.id == id) = some row ∧ row.Due caller request.nowMs
  carried : Carried stored db id
  begins : stored .begin = true
  commits : stored .commit = true

section
variable {stored : Statement → Bool} {request : PurgeRequest} {db db' : Database Data} {id : DocumentId}

theorem yields_purge : (purge stored request).Yields db reclaim db' ↔
    ∃ id, Granted stored request db id ∧ reclaim = db.reclaimed id ∧ db' = db.without id := by
  unfold purge
  simp only [Work.yields_bind, Work.yields_found, Work.yields_check, Work.yields_tx, yields_purgeRows]
  constructor
  · rintro ⟨caller, _, ⟨hcaller, rfl⟩, _, _, ⟨horigin, rfl⟩, id, _, ⟨hid, rfl⟩, hbegins, hcommits, ⟨row, hrow, hdue⟩,
      hcarried, hreclaim, hdb⟩
    exact ⟨id, ⟨hid, ⟨caller, row, hcaller, horigin, hrow, hdue⟩, hcarried, hbegins, hcommits⟩, hreclaim, hdb⟩
  · rintro ⟨id, ⟨hid, ⟨caller, row, hcaller, horigin, hrow, hdue⟩, hcarried, hbegins, hcommits⟩, hreclaim, hdb⟩
    exact ⟨caller, _, ⟨hcaller, rfl⟩, (), _, ⟨horigin, rfl⟩, id, _, ⟨hid, rfl⟩, hbegins, hcommits, ⟨row, hrow, hdue⟩,
      hcarried, hreclaim, hdb⟩

theorem purge_atomic : (purge stored request : Work (Database Data) ApiError (List Hash)).Atomic := by
  unfold purge
  refine Work.atomic_bind (fun _ => Work.found_state) fun caller => ?_
  refine Work.atomic_bind (fun _ => Work.check_state) fun _ => ?_
  refine Work.atomic_bind (fun _ => Work.found_state) fun id => ?_
  exact Work.atomic_tx

theorem hasBlob_without : (db.without id).hasBlob hash =
    (db.hasBlob hash && !(db.referredBy id hash && !db.referredElsewhere id hash)) := by
  unfold Database.hasBlob Database.without
  rw [Table.rows_delete, any_filter, Bool.eq_iff_iff, Bool.and_eq_true, any_eq_true, any_eq_true]
  constructor
  · rintro ⟨row, hrow, h⟩
    rw [Bool.and_eq_true, beq_iff_eq] at h
    exact ⟨⟨row, hrow, beq_iff_eq.mpr h.2⟩, h.2 ▸ h.1⟩
  rintro ⟨⟨row, hrow, heq⟩, h⟩
  refine ⟨row, hrow, ?_⟩
  rw [Bool.and_eq_true]
  exact ⟨(beq_iff_eq.mp heq) ▸ h, heq⟩

theorem references_without : (db.without id).references hash = db.referredElsewhere id hash :=
  any_filter

theorem mem_reclaimed :
    hash ∈ db.reclaimed id ↔ db.hasBlob hash = true ∧ (db.without id).hasBlob hash = false := by
  unfold Database.reclaimed
  rw [mem_filter, Database.mem_assetHashes, hasBlob_without]
  cases db.hasBlob hash <;> cases db.referredBy id hash <;> cases db.referredElsewhere id hash <;> simp

theorem reclaimed_nodup : (db.reclaimed id).Nodup := Database.assetHashes_nodup.filter _

theorem assetTables_purge : db.assetTables.purge id = ((db.without id).assetTables, db.reclaimed id) := by
  have hhashes : (db.assetTables.assets.filter (·.documentId == id)).map (·.contentHash) = db.assetHashes id := by
    unfold Database.assetTables Database.assetHashes
    rw [filter_map, map_map]
    rfl
  have hassets : ({ db.assetTables with
      assets := db.assetTables.assets.filter (·.documentId != id) } : Assets.AssetTables) =
      (db.emptied id).assetTables := by
    unfold Database.assetTables
    rw [filter_map]
    rfl
  have hyields : (deleteBlobs (fun _ => true) [] (db.assetHashes id)).Yields (db.emptied id) (db.reclaimed id)
      ((db.emptied id).withoutBlobs (db.assetHashes id)) := by
    refine (yields_deleteBlobs Database.assetHashes_nodup).mpr ⟨fun _ _ => rfl, ?_, rfl⟩
    exact filter_emptied.symm
  unfold Assets.AssetTables.purge
  rw [hhashes, hassets, deleteBlobs_assetTables hyields, ← deleteDocument_emptied]
  rfl

/-- A purge is, to the assets, the purge of the asset store. -/
theorem purge_refines (stored : Statement → Bool) (request : PurgeRequest) (db db' : Database Data)
    (reclaim : List Hash) : (purge stored request).Yields db reclaim db' ↔
      ∃ id, Granted stored request db id ∧ db' = db.without id ∧
        db.assetTables.purge id = (db'.assetTables, reclaim) := by
  simp only [yields_purge, assetTables_purge]
  grind

theorem reclaimPurgedAsset_eq (visit : Visit Data) (files : List Hash) (item : Hash) :
    reclaimPurgedAsset visit files item =
      files.filter fun hash => !(hash == item && visit.removes && visit.rows.any (!·.references hash)) := by
  unfold reclaimPurgedAsset
  cases visit.rows with
  | none => simp
  | some db =>
    dsimp only
    split
    · exact (filter_eq_self.mpr fun hash _ => by grind).symm
    · exact filter_congr fun hash _ => by grind

end

def orphanHash : Hash := List.replicate 32 7

/-- A deleted document that refers to nothing, beside a blob that nothing refers to. -/
def orphaned : Database Unit where
  documents := ⟨[⟨1, ⟨.scratch 2, 0, some 0⟩, ()⟩], nodup_singleton _⟩
  comments := ⟨[], .nil⟩
  replies := ⟨[], .nil⟩
  versions := ⟨[], .nil⟩
  versionBlobs := ⟨[], .nil⟩
  leaf := fun _ => []
  blobs := ⟨[⟨⟨orphanHash, 1⟩, rfl, ()⟩], nodup_singleton _⟩
  assets := ⟨[], .nil⟩
  runs := ⟨[], .nil⟩
  events := []
  receipts := []

def orphanRequest : PurgeRequest where
  caller := some (.scratch 2)
  sameOrigin := false
  documentId := some 1
  nowMs := trashRetentionMs

end Marks.Purge
