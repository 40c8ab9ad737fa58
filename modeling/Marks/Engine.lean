import Marks.Version

/-! # The document engine

The esbt engine is a parameter: its operations are fields of `Engine`, each failing one an `Option`,
and `Engine.Lawful` names what the room relies on. `content` is what a replica holds apart from its
encoding and its history floor; two replicas with one content answer alike. -/

namespace Marks

abbrev Bytes := List UInt8

structure Operation where
  origin : SiteId
  seq : Nat
deriving DecidableEq, Repr

inductive ArtifactKind
  | update
  | compactSnapshot
  | fullSnapshot
deriving DecidableEq, Repr

inductive Artifact (Update : Type) where
  | update (update : Update)
  | compactSnapshot (version : Version)
  | fullSnapshot (version : Version)

/-- What `apply_update` returns; `journalBytes` is `none` when nothing was new. -/
structure UpdateReceipt where
  version : Version
  journalBytes : Option Bytes
  acceptedOperations : List Operation
deriving DecidableEq, Repr

structure Engine where
  Doc : Type
  Update : Type
  new : Doc
  version : Doc → Version
  text : Doc → List Char
  len : Doc → Nat
  retainedOperations : Doc → Nat
  encodeVersion : Version → Bytes
  classify : Bytes → Option ArtifactKind
  decode : Bytes → Option (Artifact Update)
  operations : Update → List Operation
  applyUpdate : Doc → Update → Option (Doc × UpdateReceipt)
  applyBytes : Doc → Bytes → Option Doc
  applySnapshotBytes : Doc → Bytes → Option (Doc × Version)
  exportUpdate : Doc → Version → Option Bytes
  exportCompactSnapshot : Doc → Option Bytes
  exportFullSnapshot : Doc → Option Bytes
  pruneHistoryThrough : Doc → Version → Option Doc

namespace Engine

variable (E : Engine) {κ : Type} (content : E.Doc → κ)

/-- A snapshot rebuilds, from an empty replica, one with the content `doc` has. -/
def Rebuilds (snapshot : Bytes) (doc : E.Doc) : Prop :=
  ∃ doc' v, E.applySnapshotBytes E.new snapshot = some (doc', v) ∧ content doc' = content doc

/-- Journal bytes take any replica with the content of `before` to the content of `after`. -/
def Carries (journal : Bytes) (before after : E.Doc) : Prop :=
  ∀ doc, content doc = content before →
    ∃ doc', E.applyBytes doc journal = some doc' ∧ content doc' = content after

structure Lawful : Prop where
  version_congr : ∀ d d', content d = content d' → E.version d = E.version d'
  text_congr : ∀ d d', content d = content d' → E.text d = E.text d'
  update_unchanged : ∀ d u d' r, E.applyUpdate d u = some (d', r) → r.journalBytes = none →
    content d' = content d
  update_journal : ∀ d u d' r j, E.applyUpdate d u = some (d', r) → r.journalBytes = some j →
    E.Carries content j d d'
  snapshot_unchanged : ∀ d b d' v, E.applySnapshotBytes d b = some (d', v) → v = E.version d →
    content d' = content d
  compact_rebuilds : ∀ d b, E.exportCompactSnapshot d = some b → E.Rebuilds content b d
  full_rebuilds : ∀ d b, E.exportFullSnapshot d = some b → E.Rebuilds content b d
  prune_content : ∀ d v d', E.pruneHistoryThrough d v = some d' → content d' = content d

/-- Applying an update is deterministic in the content: what a replica answers to an update, and the
content it ends with, do not depend on its encoding or history floor. -/
structure Deterministic : Prop where
  update_congr : ∀ d e u d' r, content d = content e → E.applyUpdate d u = some (d', r) →
    ∃ e' q, E.applyUpdate e u = some (e', q) ∧ content d' = content e' ∧
      r.version = q.version ∧ r.journalBytes.isSome = q.journalBytes.isSome
  update_refused : ∀ d e u, content d = content e → E.applyUpdate d u = none →
    E.applyUpdate e u = none

end Engine

end Marks
