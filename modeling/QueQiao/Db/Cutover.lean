import QueQiao.Db.MigrateVerify
import QueQiao.Lib.CrashLogic
import QueQiao.Lib.Directory

namespace QueQiao.Cutover

open Lib.CrashLogic Lib.Directory Migrate

inductive SchemaKind
  | empty
  | legacy
  | v7
  | v8
  | newer (version : ℤ)
  | unknown
  deriving DecidableEq, Repr

inductive DbError
  | busy (text : String)
  | driver (text : String)
  | shape (text : String)
  | poolTimeout
  | closed
  deriving DecidableEq, Repr

def DbError.text : DbError → String
  | busy text | driver text => text
  | shape text => "row shape error: " ++ text
  | poolTimeout => "db reader pool timed out"
  | closed => "db pool is closed"

def DbError.isBusy : DbError → Bool
  | busy _ => true
  | _ => false

variable (L : Type)

/-- What a database file holds; `L` are the databases of the oldest schema. There are databases
without a table, and databases that look like v8 but for the column `TimeMs`. -/
inductive Database
  | blank
  | legacy (rows : L)
  | v7 (source : Source) (count_le : source.records.length ≤ 9223372036854775807)
  | v8 (target : Target)
  | untimed
  | newer (version : ℤ)
  | unknown

/-- A database can leave a part of itself in some of its sidecars. -/
inductive File
  | database (db : Database L) (pending : List String)
  | unfinished
  | plain (len : ℕ)

variable {L}

def Database.ofSource (source : {source : Source // source.records.length ≤ 9223372036854775807}) :
    Database L := .v7 source.1 source.2

def Database.kind : Database L → SchemaKind
  | blank => .empty
  | legacy _ => .legacy
  | v7 _ _ => .v7
  | v8 _ | untimed => .v8
  | newer version => .newer version
  | unknown => .unknown

def File.len : File L → ℕ
  | database _ _ | unfinished => 1
  | plain len => len

/-- `probe_schema`, once it can read the file. -/
def probeSchema : Option (File L) → Except DbError SchemaKind
  | none | some (.plain 0) => .ok .empty
  | some (.database db _) => .ok db.kind
  | _ => .error (.driver "file is not a database")

/-- The files of a directory and the sidecars of which the log says that they were not rolled
back. -/
structure Disk (L : Type) where
  files : Files (File L)
  log : List String

namespace Disk

def get (disk : Disk L) (name : String) : Option (File L) := disk.files.get name

def put (disk : Disk L) (name : String) (file : File L) : Disk L :=
  { disk with files := disk.files.put name file }

def remove (disk : Disk L) (name : String) : Disk L :=
  { disk with files := disk.files.remove name }

def move (disk : Disk L) (old new : String) : Disk L :=
  { disk with files := disk.files.move old new }

end Disk

/-- What befalls a step: its error, and what SQLite leaves of the sidecars. -/
structure Fault where
  error : Option DbError := none
  keepsMode : Bool := false
  removed : List String := []
  pending : List String := []
  emptied : List String := []

instance : Inhabited Fault := ⟨{}⟩

abbrev Cut (L α : Type) := Prog Fault (Disk L) DbError α

def act {α : Type} (raise : DbError → DbError) (f : Fault → Disk L → Except DbError α × Disk L) : Cut L α :=
  .step fun fault disk ↦
    match fault.error with
    | some error => (.error (raise error), disk)
    | none => f fault disk

def io (text : String) (error : DbError) : DbError := .shape (text ++ error.text)

def sql (effect : Fault → Disk L → Disk L) : Cut L Unit :=
  act id fun fault disk ↦ (.ok (), effect fault disk)

def noFile (text : String) : DbError := .shape (text ++ "No such file or directory")

def touch (text name : String) : Cut L Unit :=
  act (io text) fun _ disk ↦
    match disk.get name with
    | some _ => (.ok (), disk)
    | none => (.error (noFile text), disk)

def rename (old new : String) : Cut L Unit :=
  act id fun _ disk ↦
    match disk.get old with
    | some _ => (.ok (), disk.move old new)
    | none => (.error (noFile ""), disk)

def removeFile (text name : String) : Cut L Unit :=
  act (io (text ++ " '" ++ name ++ "': ")) fun _ disk ↦ (.ok (), disk.remove name)

def sidecars : List String := ["-wal", "-shm", "-journal"]

def artifactPath (path suffix : String) : String := path ++ suffix

def removeArtifact (path : String) : Cut L Unit :=
  .forEach (fun suffix ↦ removeFile "cannot remove migration artifact" (artifactPath path suffix))
    ("" :: sidecars)

def removeSidecars (path : String) : Cut L Unit :=
  .forEach (fun suffix ↦ removeFile "cannot remove database sidecar" (artifactPath path suffix)) sidecars

def createEmptyArtifact (path : String) : Cut L Unit := do
  let text := "cannot prepare migration artifact '" ++ path ++ "': "
  act (io text) fun _ disk ↦ (.ok (), disk.put path (.plain 0))
  touch text path

def detectSchema (path : String) : Cut L SchemaKind :=
  act id fun _ disk ↦ (probeSchema (disk.get path), disk)

/-- The lock of the file is that of the process, and ends with it. -/
def acquireLock (path : String) : Cut L Unit := do
  let lockPath := artifactPath path ".v8-migrate.lock"
  act (io "cannot open migration lock: ") fun _ disk ↦
    (.ok (), if (disk.get lockPath).isSome then disk else disk.put lockPath (.plain 0))
  act
    (fun error ↦
      if error.isBusy then .busy ("migration lock held for '" ++ path ++ "', timed out")
      else .shape ("cannot acquire migration lock: " ++ error.text))
    fun _ disk ↦ (.ok (), disk)

/-- SQLite takes up what the sidecars of a database hold, where it can leave its journal mode. -/
def drain (path : String) (fault : Fault) (disk : Disk L) : Disk L :=
  match disk.get path with
  | some (.database db pending) =>
    if fault.keepsMode then disk
    else
      ((pending ++ fault.removed).filter (· ∈ sidecars)).foldl
        (fun disk suffix ↦ disk.remove (artifactPath path suffix)) (disk.put path (.database db []))
  | _ => disk

def vacuumInto (path stage : String) : Cut L Unit := do
  sql fun _ disk ↦ disk.put stage .unfinished
  act id fun _ disk ↦
    match disk.get path with
    | some (.database db _) => (.ok (), disk.put stage (.database db []))
    | _ => (.error (.driver "file is not a database"), disk)

/-- Up to the lock on the source there are the steps to connect, to acquire a connection, to set
the journal mode, to begin the transaction and to acquire another connection. -/
def snapshotSource (path stage : String) : Cut L Unit := do
  sql fun _ disk ↦ disk
  sql fun _ disk ↦ disk
  sql (drain path)
  sql fun _ disk ↦ disk
  sql fun _ disk ↦ disk
  createEmptyArtifact stage
  vacuumInto path stage

/-- The conversion of a legacy database, the error of a row that cannot be copied, and the full-text
index; `Format.ofConversion` has the conversion of `migrate_archive`. -/
structure Format (L : Type) where
  migrateArchive : L → Except String {source : Source // source.records.length ≤ 9223372036854775807}
  copyFailure : String
  indexed : Target → String → ℕ

variable (format : Format L)

def migrateStagedLegacy (stage : String) : Cut L Unit := do
  sql fun _ disk ↦ disk
  let disk ← .look
  match disk.get stage with
  | some (.database (.legacy rows) _) => do
    sql fun _ disk ↦ disk.put stage .unfinished
    match format.migrateArchive rows with
    | .ok source => sql fun _ disk ↦ disk.put stage (.database (.ofSource source) [])
    | .error text => .fail (.shape text)
  | _ => .fail (.driver "no such column: Request")

def leave (path : String) (suffixes : List String) (len : ℕ) (disk : Disk L) : Disk L :=
  suffixes.foldl (fun disk suffix ↦ disk.put (artifactPath path suffix) (.plain len)) disk

def dataSidecars : List String := ["-wal", "-journal"]

def closeTarget (target : String) (copy : Target) (fault : Fault) (disk : Disk L) : Disk L :=
  let pending := fault.pending.filter (· ∈ dataSidecars)
  leave target pending 1 (leave target (fault.emptied.filter (· ∈ sidecars)) 0
    (disk.put target (.database (.v8 copy) pending)))

def run (stage target : String) : Cut L Unit := do
  sql fun _ disk ↦ disk
  sql fun _ disk ↦ disk.put target .unfinished
  let disk ← .look
  match disk.get stage with
  | some (.database (.v7 source _) _) =>
    match runCopy format.indexed source format.copyFailure with
    | .ok copy => sql (closeTarget target copy)
    | .error text => .fail (.shape text)
  | _ => .fail (.driver "no such table: records")

def backupName (path : String) (n : ℕ) : String :=
  if n = 0 then path ++ ".bak" else path ++ ".bak" ++ "." ++ toString n

def isFree (files : Files (File L)) (candidate : String) : Bool :=
  candidate ∉ files && ["-journal", "-wal", "-shm"].all fun suffix ↦ candidate ++ suffix ∉ files

def backupNumber (files : Files (File L)) (path : String) : ℕ :=
  ((List.range (files.keys.length + 1)).find? fun n ↦ isFree files (backupName path n)).getD 0

def uniqueBackupPath (files : Files (File L)) (path : String) : String :=
  backupName path (backupNumber files path)

def notDrained (text name : String) : DbError :=
  .shape (text ++ " '" ++ name ++ "' was not drained before cutover")

def checkDrained (raise text name : String) : Cut L Unit :=
  act (io raise) fun _ disk ↦
    match disk.get name with
    | some file => if 0 < file.len then (.error (notDrained text name), disk) else (.ok (), disk)
    | none => (.ok (), disk)

def prepareTargetForCutover (target : String) : Cut L Unit := do
  .forEach (fun suffix ↦
      let sidecar := artifactPath target suffix
      checkDrained ("cannot inspect migration target sidecar '" ++ sidecar ++ "': ")
        "migration target sidecar" sidecar)
    dataSidecars
  removeSidecars target

def link (old new : String) : Cut L Unit :=
  act id fun _ disk ↦
    match disk.get old with
    | some file =>
      if (disk.get new).isSome then (.error (.shape "File exists"), disk)
      else (.ok (), disk.put new file)
    | none => (.error (noFile ""), disk)

def createBackup (active backup : String) : Cut L Unit := do
  match ← (link active backup : Cut L Unit).attempt with
  | .ok () => pure ()
  | .error _ => do
    let text := "cannot create database backup: "
    touch text active
    act (io text) fun _ disk ↦ (.ok (), disk.put backup .unfinished)
    act (io text) fun _ disk ↦
      match disk.get active with
      | some file => (.ok (), disk.put backup file)
      | none => (.error (noFile text), disk)

def rollback (moved : List (String × String)) : Cut L Unit :=
  .forEach (fun sidecar ↦ do
      match ← (rename sidecar.2 sidecar.1 : Cut L Unit).attempt with
      | .ok () => pure ()
      | .error _ => .change fun disk ↦ (.ok (), { disk with log := disk.log ++ [sidecar.1] }))
    moved.reverse

def moveSidecars (active backup : String) :
    List String → List (String × String) → Cut L (List (String × String))
  | [], moved => pure moved
  | suffix :: suffixes, moved => do
    let sidecar := artifactPath active suffix
    let disk ← .look
    if (disk.get sidecar).isSome then
      match ← (rename sidecar (artifactPath backup suffix) : Cut L Unit).attempt with
      | .ok () => moveSidecars active backup suffixes (moved ++ [(sidecar, artifactPath backup suffix)])
      | .error error => do
        rollback moved
        .fail (.shape ("cannot preserve database sidecar: " ++ error.text))
    else moveSidecars active backup suffixes moved

def replaceActive (active target : String) : Cut L Unit := do
  prepareTargetForCutover target
  touch "cannot preserve database permissions: " target
  touch "cannot sync staged database: " target
  .forEach (fun suffix ↦
      checkDrained "cannot inspect database sidecar: " "database sidecar" (artifactPath active suffix))
    sidecars
  let disk ← .look
  let backup := uniqueBackupPath disk.files active
  createBackup active backup
  let moved ← moveSidecars active backup sidecars []
  match ← (rename target active : Cut L Unit).attempt with
  | .ok () => act (io "cannot sync database directory: ") fun _ disk ↦ (.ok (), disk)
  | .error error => do
    rollback moved
    .fail (.shape ("cannot atomically replace active database: " ++ error.text))

def refusal : SchemaKind → DbError
  | .newer version =>
    .shape ("audit database schema v" ++ toString version ++ " is newer than this binary (v8)")
  | .empty => .shape "cannot migrate an empty audit database"
  | _ => .shape "unrecognized audit schema; refusing automatic migration"

def migrateStaged (path stage target : String) : Cut L Unit := do
  if (← detectSchema stage) = .legacy then
    migrateStagedLegacy format stage
  if (← detectSchema stage) ≠ .v7 then
    .fail (.shape "staged SQLite source did not become v7")
  createEmptyArtifact target
  run format stage target
  replaceActive path target
  removeArtifact stage

def migratePath (path stage target : String) : Cut L Unit := do
  removeArtifact stage
  removeArtifact target
  touch ("cannot stat '" ++ path ++ "': ") path
  snapshotSource path stage
  match ← (migrateStaged format path stage target).attempt with
  | .ok () => removeSidecars path
  | .error error => .fail error

def migratePathToV8 (path : String) : Cut L Unit := do
  acquireLock path
  let stage := artifactPath path ".v8-stage"
  let target := artifactPath path ".v8-target"
  match ← detectSchema path with
  | .v8 => do
    removeArtifact stage
    removeArtifact target
  | .legacy | .v7 => migratePath format path stage target
  | kind => .fail (refusal kind)

end QueQiao.Cutover
