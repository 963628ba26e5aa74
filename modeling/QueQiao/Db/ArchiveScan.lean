import QueQiao.Db.CutoverSafety
import Mathlib.Data.List.Sort

namespace QueQiao.ArchiveScan

open Lib.CrashLogic Lib.Directory Migrate Cutover

def splitOnce (c : Char) (text : List Char) : List Char × Option (List Char) :=
  match text.dropWhile (· ≠ c) with
  | [] => (text, none)
  | _ :: rest => (text.takeWhile (· ≠ c), some rest)

def parseArchiveStem (stem : List Char) : Option ℕ :=
  if "record_".toList.isPrefixOf stem then
    let (month, suffix) := splitOnce '_' (stem.drop 7)
    if month.length ≠ 6 || !month.all Char.isDigit then none
    else if suffix.any fun tail ↦ tail.isEmpty || !tail.all Char.isDigit then none
    else
      let yyyymm := Nat.ofDigitChars 10 month 0
      if 1 ≤ yyyymm % 100 ∧ yyyymm % 100 ≤ 12 then some yyyymm else none
  else none

def rsplitDot (name : List Char) : Option (List Char × List Char) :=
  match name.reverse.dropWhile (· ≠ '.') with
  | _ :: c :: rest => some ((c :: rest).reverse, (name.reverse.takeWhile (· ≠ '.')).reverse)
  | _ => none

def archiveStemForPath (name : String) : Option String :=
  match rsplitDot name.toList with
  | some (stem, extension) =>
    if extension = "db".toList then (parseArchiveStem stem).map fun _ ↦ String.ofList stem else none
  | none => none

def archivePath (stem : String) : String := stem ++ ".db"

structure ArchiveShard where
  id : String
  path : String
  minMs : Option ℤ
  maxMs : Option ℤ
  deriving DecidableEq, Repr

inductive OpenStep
  | connect
  | acquire
  | beginImmediate
  | select
  | rollback
  | probe
  | openStore
  | columns
  | bounds
  deriving DecidableEq, Repr

/-- What befalls the steps of opening an archive: their errors, whether SQLite leaves the journal it
has replayed, and the empty sidecars it leaves. -/
structure Opening where
  errors : OpenStep → Option DbError := fun _ ↦ none
  cleanup : Option DbError := none
  keepsJournal : Bool := false
  emptied : List String := []

variable {L : Type} {α : Type}

def known (error : Option DbError) (f : Disk L → Except DbError α × Disk L) : Cut L α :=
  .change fun disk ↦
    match error with
    | some error => (.error error, disk)
    | none => f disk

def journalPath (path : String) : String := artifactPath path "-journal"

def replay (path : String) (keepsJournal : Bool) (disk : Disk L) : Except DbError Unit × Disk L :=
  match disk.get path with
  | some (.database db pending) =>
    let replayed := disk.put path (.database db (pending.filter (· ≠ "-journal")))
    (.ok (), if keepsJournal then replayed else replayed.remove (journalPath path))
  | _ => (.error (.shape "file is not a database"), disk)

def idle (disk : Disk L) : Except DbError Unit × Disk L := (.ok (), disk)

def recoverJournal (path : String) (opening : Opening) : Cut L Unit := do
  known (opening.errors .connect) idle
  known (opening.errors .acquire) idle
  known (opening.errors .beginImmediate) (replay path opening.keepsJournal)
  known (opening.errors .select) idle
  let disk ← .look
  if (disk.get (journalPath path)).isSome then
    let text := "archive rollback journal cleanup failed for '" ++ journalPath path ++ "': "
    known (opening.cleanup.map (io text)) fun disk ↦ (.ok (), disk.remove (journalPath path))
  known (opening.errors .rollback) idle

def openStore (path : String) (emptied : List String) (disk : Disk L) : Disk L :=
  (emptied.filter (· ∈ sidecars)).foldl
    (fun disk suffix ↦
      if (disk.get (artifactPath path suffix)).isSome then disk
      else disk.put (artifactPath path suffix) (.plain 0))
    disk

/-- The shard of a v8 archive with the column `TimeMs`; a bound that cannot be read is an error of
the query. -/
def openShard (path id : String) (opening : Opening) : Cut L (Option ArchiveShard) := do
  known (opening.errors .openStore) fun disk ↦ (.ok (), openStore path opening.emptied disk)
  known (opening.errors .columns) idle
  let disk ← .look
  match disk.get path with
  | some (.database (.v8 target) _) => do
    known (opening.errors .bounds) idle
    pure (some ⟨id, path, target.timeOf sqlMin, target.timeOf sqlMax⟩)
  | _ => pure none

def probeAndOpen (path id : String) (opening : Opening) : Cut L (Option ArchiveShard) := do
  match ← known (opening.errors .probe) fun disk ↦ (probeSchema (disk.get path), disk) with
  | .v8 => openShard path id opening
  | .newer version =>
    .fail (.shape ("archive schema v" ++ toString version ++ " is newer than this binary"))
  | .v7 | .legacy | .empty => pure none
  | .unknown => .fail (.shape "unrecognized archive schema")

def openArchiveShard (path id : String) (opening : Opening) : Cut L (Option ArchiveShard) := do
  let disk ← .look
  if (disk.get (journalPath path)).isSome then
    recoverJournal path opening
  probeAndOpen path id opening

structure Outcome where
  opened : Option ArchiveShard := none
  notices : List String := []
  quarantine : Bool := false
  busy : Bool := false
  deriving DecidableEq

def openFailed (path : String) (error : DbError) : String :=
  "archive shard '" ++ path ++ "' open failed: " ++ error.text

def migrateAndReopen (format : Format L) (path id : String) (reopening : Opening) : Cut L Outcome := do
  match ← (migratePathToV8 format path).attempt with
  | .error error =>
    pure {
      notices := ["Legacy archive migration failed for '" ++ path ++ "': " ++ error.text]
      busy := error.isBusy }
  | .ok () =>
    match ← (openArchiveShard path id reopening : Cut L _).attempt with
    | .ok (some shard) =>
      match ← (removeSidecars path : Cut L Unit).attempt with
      | .ok () => pure { opened := some shard }
      | .error error =>
        pure {
          opened := some shard
          notices := ["archive sidecar cleanup failed for '" ++ path ++ "': " ++ error.text] }
    | .ok none =>
      pure { notices := ["Archive '" ++ path ++ "' still lacks TimeMs after migration; skipping"] }
    | .error error => pure { notices := [openFailed path error], busy := error.isBusy }

structure Weather where
  opening : Opening := {}
  migration : List Fault := []
  reopening : Opening := {}
  quarantine : List Fault := []

def openOrMigrate (format : Format L) (disabled : Bool) (path id : String) (weather : Weather) :
    Cut L Outcome := do
  match ← (openArchiveShard path id weather.opening : Cut L _).attempt with
  | .ok (some shard) => pure { opened := some shard }
  | .ok none =>
    if disabled then pure {} else migrateAndReopen format path id weather.reopening
  | .error error =>
    pure { notices := [openFailed path error], quarantine := !error.isBusy, busy := error.isBusy }

/-- A task cannot fail. -/
def runTask (format : Format L) (disabled : Bool) (stem : String) (weather : Weather) (disk : Disk L) :
    Outcome × Disk L :=
  let run := openOrMigrate format disabled (archivePath stem) stem weather
    ⟨disk, weather.migration, [disk]⟩
  match run.1 with
  | .ok outcome => (outcome, run.2.state)
  | .error _ => ({}, run.2.state)

def quarantineDatabase (path : String) : Cut L String := do
  let disk ← .look
  let backup := uniqueBackupPath disk.files path
  rename path backup
  .forEach
    (fun suffix ↦ do
      let sidecar := artifactPath path suffix
      let disk ← .look
      if (disk.get sidecar).isSome then rename sidecar (uniqueBackupPath disk.files sidecar))
    ["-journal", "-wal", "-shm"]
  pure backup

/-- The files of an archive are those whose names begin with its path. -/
structure Registry (L : Type) where
  archives : String → Disk L
  shards : Files ArchiveShard
  failed : List String
  skipped : ℕ
  log : List String

def ArchiveRegistry.new (archives : String → Disk L) : Registry L := ⟨archives, ∅, [], 0, []⟩

/-- What a scan meets: the names in the directory or the error of reading it, what befalls the
archives, and whether migrations are disabled. -/
structure Scan where
  entries : Except String (List String)
  weather : String → Weather
  migrationDisabled : Bool

variable (format : Format L) (active : String)

def archiveStems (entries : List String) : List String :=
  (entries.filter (· ≠ active)).filterMap archiveStemForPath

def pendingStems (entries : List String) (registry : Registry L) : List String :=
  (archiveStems active entries).filter fun stem ↦
    (registry.shards.get stem).isNone && stem ∉ registry.failed

def updateSkippedCount (stems : List String) (registry : Registry L) : Registry L :=
  { registry with
    skipped := (stems.dedup.filter fun stem ↦ (registry.shards.get stem).isNone).length }

/-- What is done once the task of an archive has completed, with the archives that remain. -/
def finishArchive (weather : String → Weather) (state : Registry L × List String)
    (completed : String × Outcome) : Registry L × List String :=
  let (stem, outcome) := completed
  let registry := state.1
  let failed :=
    if outcome.opened.isNone && !outcome.busy then registry.failed.insert stem else registry.failed
  let registry := { registry with failed := failed, log := registry.log ++ outcome.notices }
  match outcome.opened with
  | some shard => ({ registry with shards := registry.shards.put stem shard }, state.2)
  | none =>
    if outcome.quarantine then
      let path := archivePath stem
      let run := quarantineDatabase path ⟨registry.archives stem, (weather stem).quarantine, []⟩
      let archives := Function.update registry.archives stem run.2.state
      match run.1 with
      | .ok backup =>
        ({ registry with
            archives := archives
            log := registry.log ++ ["Failed archive quarantined: '" ++ path ++ "' -> '" ++ backup ++ "'"] },
          state.2.filter (· ≠ stem))
      | .error error =>
        ({ registry with
            archives := archives
            log := registry.log ++
              ["Failed archive quarantine failed for '" ++ path ++ "': " ++ error.text] },
          state.2)
    else (registry, state.2)

def taskOf (scan : Scan) (registry : Registry L) (stem : String) : Outcome × Disk L :=
  runTask format scan.migrationDisabled stem (scan.weather stem) (registry.archives stem)

/-- The tasks run side by side, each on the files of its own archive. -/
def runTasks (scan : Scan) (entries : List String) (registry : Registry L) : Registry L :=
  { registry with
    archives := fun stem ↦
      if stem ∈ pendingStems active entries registry then (taskOf format scan registry stem).2
      else registry.archives stem }

def completedTasks (scan : Scan) (entries : List String) (registry : Registry L) :
    List (String × Outcome) :=
  ((pendingStems active entries registry).map fun stem ↦
    (stem, (taskOf format scan registry stem).1)).insertionSort fun a b ↦ a.1 ≤ b.1

def ensureScanned (scan : Scan) (registry : Registry L) : Registry L :=
  match scan.entries with
  | .error error =>
    { registry with log := registry.log ++ ["archive scan: read_dir failed: " ++ error] }
  | .ok entries =>
    let finished := (completedTasks format active scan entries registry).foldl
      (finishArchive scan.weather)
      (runTasks format active scan entries registry, archiveStems active entries)
    updateSkippedCount finished.2 finished.1

/-- Between scans other processes put archives there or take them away, and a process starts anew. -/
inductive Event (L : Type)
  | scan (scan : Scan)
  | place (stem : String) (disk : Disk L)
  | restart

def step (registry : Registry L) : Event L → Registry L
  | .scan scan => ensureScanned format active scan registry
  | .place stem disk => { registry with archives := Function.update registry.archives stem disk }
  | .restart => ArchiveRegistry.new registry.archives

def run (events : List (Event L)) (registry : Registry L) : Registry L :=
  events.foldl (step format active) registry

end QueQiao.ArchiveScan
