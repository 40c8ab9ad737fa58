import Marks.Engine
import Marks.Runs

/-! # Backups and their restoration

The staging and publication of backups by any number of runs, one file operation a step, and the restoration of
one. What an operation reads and whether it fails is up to its step. A directory holds the files the operations
put there under their names; an asset file is named by its hash. -/

namespace Marks.Backup

def backupSchema : String := "marks-backup.v2"

structure BackupAsset where
  sha256 : Bytes
  bytes : Nat
deriving DecidableEq, Repr

structure ArtifactIdentity where
  buildRevision : String
  serverEngineRevision : String
  componentSha256 : String
deriving DecidableEq, Repr

structure BackupManifest where
  schema : String
  createdAtMs : Nat
  databaseSha256 : Bytes
  artifact : ArtifactIdentity
  assets : List BackupAsset
deriving DecidableEq, Repr

abbrev AssetFiles := List (Bytes × Bytes)

def AssetFiles.file (files : AssetFiles) (hash : Bytes) : Option Bytes :=
  (files.find? (·.1 == hash)).map (·.2)

/-- A backup directory, staged or published. -/
structure BackupTree where
  database : Option Bytes
  assets : Option AssetFiles
  manifest : Option BackupManifest
deriving DecidableEq, Repr

def BackupTree.empty : BackupTree := ⟨none, none, none⟩

section
variable (sha256 : Bytes → Bytes) (assetRows : Bytes → Option (List BackupAsset))

/-! ## Verification -/

def verifyPath (row : BackupAsset) (content : Bytes) : Bool :=
  content.length == row.bytes && sha256 content == row.sha256

/-- The file goes in whole once its length and hash are those of the row; one that is there is only verified. -/
def copyVerified (source : Option Bytes) (row : BackupAsset) (destination : AssetFiles) : Option AssetFiles :=
  match destination.file row.sha256 with
  | some content => if verifyPath sha256 row content then some destination else none
  | none =>
    match source with
    | some content => if verifyPath sha256 row content then some (destination ++ [(row.sha256, content)]) else none
    | none => none

def verifyAssets (files : AssetFiles) (rows : List BackupAsset) : Bool :=
  rows.all fun row => (copyVerified sha256 (files.file row.sha256) row files).isSome

def verifyBlocking (tree : BackupTree) : Option BackupManifest :=
  match tree.manifest, tree.database with
  | some manifest, some database =>
    if manifest.schema ≠ backupSchema ∨ sha256 database ≠ manifest.databaseSha256 then none
    else
      match assetRows database with
      | none => none
      | some rows =>
        if rows ≠ manifest.assets then none
        else if verifyAssets sha256 (tree.assets.getD []) rows then some manifest
        else none
  | _, _ => none

end

/-! ## Creation -/

/-- The next operation of a run. -/
inductive BackupStage
  | createRoot
  | createPartial
  | snapshot
  | readRows
  | createAssets (rows : List BackupAsset)
  | copyAssets (rows left : List BackupAsset)
  | writeManifest (rows : List BackupAsset)
  | verify
  | finish
  | prepared
  | rename
  | syncRoot
  | drop
  | ended
deriving DecidableEq, Repr

structure BackupRun where
  createdAtMs : Nat
  artifact : ArtifactIdentity
  stage : BackupStage
  cancellation : Bool
  published : Bool
deriving DecidableEq, Repr

structure BackupIo where
  ok : Bool
  content : Option Bytes
deriving DecidableEq, Repr

structure BackupRoot where
  partials : List (Nat × BackupTree)
  backups : List (Nat × BackupTree)
  runs : List BackupRun
deriving DecidableEq, Repr

/-- `abandon` is a deadline or the drop of the future; `abort` reaches a publication that has not started. -/
inductive BackupEvent
  | create (createdAtMs : Nat) (artifact : ArtifactIdentity)
  | work (run : Nat) (io : BackupIo)
  | publish (run : Nat)
  | abandon (run : Nat)
  | abort (run : Nat)
deriving DecidableEq, Repr

namespace BackupRoot

section
variable (sha256 : Bytes → Bytes) (assetRows : Bytes → Option (List BackupAsset)) (root : BackupRoot)

def partialTree (createdAtMs : Nat) : BackupTree :=
  ((root.partials.find? (·.1 == createdAtMs)).map (·.2)).getD .empty

def setPartial (createdAtMs : Nat) (tree : BackupTree) : BackupRoot :=
  { root with partials := root.partials.map fun entry => if entry.1 = createdAtMs then (createdAtMs, tree) else entry }

def removePartial (createdAtMs : Nat) : BackupRoot :=
  { root with partials := root.partials.filter (·.1 != createdAtMs) }

def setStage (i : Nat) (run : BackupRun) (stage : BackupStage) : BackupRoot :=
  { root with runs := root.runs.set i { run with stage } }

def staged (i : Nat) (run : BackupRun) (tree : BackupTree) (ok : Bool) (stage : BackupStage) : BackupRoot :=
  (root.setPartial run.createdAtMs tree).setStage i run (if ok then stage else .drop)

def manifestOf (run : BackupRun) (database : Bytes) (rows : List BackupAsset) : BackupManifest :=
  ⟨backupSchema, run.createdAtMs, sha256 database, run.artifact, rows⟩

def work (i : Nat) (io : BackupIo) : BackupRoot :=
  match root.runs[i]? with
  | none => root
  | some run =>
    let tree := root.partialTree run.createdAtMs
    match run.stage with
    | .createRoot => root.setStage i run (if io.ok then .createPartial else .ended)
    | .createPartial =>
      if io.ok && !root.partials.any (·.1 == run.createdAtMs) then
        ({ root with partials := root.partials ++ [(run.createdAtMs, .empty)] } : BackupRoot).setStage i run .snapshot
      else root.setStage i run .ended
    | .snapshot =>
      root.staged i run { tree with database := io.content } (io.ok && io.content.isSome && !run.cancellation) .readRows
    | .readRows =>
      match tree.database.bind assetRows with
      | some rows => root.staged i run tree io.ok (.createAssets rows)
      | none => root.staged i run tree false .ended
    | .createAssets rows => root.staged i run { tree with assets := some [] } io.ok (.copyAssets rows rows)
    | .copyAssets rows [] => root.staged i run tree true (.writeManifest rows)
    | .copyAssets rows (row :: left) =>
      match copyVerified sha256 io.content row (tree.assets.getD []) with
      | some files =>
        root.staged i run { tree with assets := some files } (io.ok && !run.cancellation) (.copyAssets rows left)
      | none => root.staged i run tree false .ended
    | .writeManifest rows =>
      match tree.database with
      | some database =>
        root.staged i run { tree with manifest := if io.ok then some (manifestOf sha256 run database rows) else none }
          io.ok .verify
      | none => root.staged i run tree false .ended
    | .verify => root.staged i run tree (io.ok && (verifyBlocking sha256 assetRows tree).isSome) .finish
    | .finish => root.staged i run tree (!run.cancellation) .prepared
    | .prepared => root
    | .rename =>
      if io.ok && !root.backups.any (·.1 == run.createdAtMs) then
        ({ root.removePartial run.createdAtMs with backups := root.backups ++ [(run.createdAtMs, tree)] } :
          BackupRoot).setStage i { run with published := true } .syncRoot
      else root.setStage i run .drop
    | .syncRoot => root.setStage i run .ended
    | .drop => (if io.ok then root.removePartial run.createdAtMs else root).setStage i run .ended
    | .ended => root

/-- The prepared backup is handed to its publication, unless nobody waits for it any more. -/
def publish (i : Nat) : BackupRoot :=
  match root.runs[i]? with
  | some run => if run.stage = .prepared ∧ run.cancellation = false then root.setStage i run .rename else root
  | none => root

/-- A prepared backup that nobody awaits is dropped. -/
def abandon (i : Nat) : BackupRoot :=
  match root.runs[i]? with
  | some run =>
    root.setStage i { run with cancellation := true } (if run.stage = .prepared then .drop else run.stage)
  | none => root

def abort (i : Nat) : BackupRoot :=
  match root.runs[i]? with
  | some run => if run.stage = .rename then root.setStage i run .drop else root
  | none => root

def step : BackupEvent → BackupRoot
  | .create createdAtMs artifact =>
    { root with runs := root.runs ++ [⟨createdAtMs, artifact, .createRoot, false, false⟩] }
  | .work i io => root.work sha256 assetRows i io
  | .publish i => root.publish i
  | .abandon i => root.abandon i
  | .abort i => root.abort i

end

def init : BackupRoot := ⟨[], [], []⟩

def after (sha256 : Bytes → Bytes) (assetRows : Bytes → Option (List BackupAsset)) (events : List BackupEvent) :
    BackupRoot := Transition.run (step sha256 assetRows) init events

end BackupRoot

/-! ## Restoration -/

inductive RestoreOp
  | verify
  | createParent
  | copyDatabase
  | syncDatabase
  | hashDatabase
  | openSource
  | openRestored
  | copyAsset (i : Nat)
  | rename
  | syncParent
  | removeTemp
  | removeAssets
deriving DecidableEq, Repr

/-- Which operations fail, and what they leave then: the database file written, a directory that was made, an
asset file that was linked. -/
structure RestoreIo where
  fails : RestoreOp → Bool
  written : Bytes
  made : Bool
  linked : Bool

/-- The paths a restore writes. -/
structure Destination where
  database : Option Bytes
  tempDatabase : Option Bytes
  assetRoot : Option AssetFiles
deriving DecidableEq, Repr

section
variable (sha256 : Bytes → Bytes) (assetRows : Bytes → Option (List BackupAsset)) (io : RestoreIo)

def restoreAssets (source : AssetFiles) : List BackupAsset → Nat → AssetFiles → Bool × AssetFiles
  | [], _, files => (true, files)
  | row :: rows, i, files =>
    match copyVerified sha256 (source.file row.sha256) row files with
    | none => (false, files)
    | some copied =>
      if io.fails (.copyAsset i) then (false, if io.linked then copied else files)
      else restoreAssets source rows (i + 1) copied

def copyFails (manifest : BackupManifest) : Bool :=
  io.fails .copyDatabase || io.fails .syncDatabase || io.fails .hashDatabase ||
    sha256 io.written != manifest.databaseSha256 || io.fails .openSource

/-- The part whose failure is cleaned up. -/
def restoreFiles (backup : BackupTree) (manifest : BackupManifest) (destination : Destination) : Bool × Destination :=
  let copied : Destination := { destination with tempDatabase := some io.written }
  if copyFails sha256 io manifest then (false, copied)
  else if io.fails .openRestored then (false, { copied with assetRoot := if io.made then some [] else none })
  else
    let (ok, files) := restoreAssets sha256 io (backup.assets.getD []) manifest.assets 0 []
    let restored : Destination := { copied with assetRoot := some files }
    if !ok || io.fails .rename then (false, restored)
    else (!io.fails .syncParent, { restored with database := some io.written, tempDatabase := none })

def cleanUp : Bool × Destination → Bool × Destination
  | (true, restored) => (true, restored)
  | (false, restored) => (false, { restored with
      tempDatabase := if io.fails .removeTemp then restored.tempDatabase else none
      assetRoot := if io.fails .removeAssets then restored.assetRoot else none })

def restoreBlocking (backup : BackupTree) (destination : Destination) : Bool × Destination :=
  if destination.database.isSome || destination.assetRoot.isSome then (false, destination)
  else
    match verifyBlocking sha256 assetRows backup with
    | none => (false, destination)
    | some manifest =>
      if io.fails .verify || io.fails .createParent then (false, destination)
      else cleanUp io (restoreFiles sha256 io backup manifest destination)

end

end Marks.Backup
