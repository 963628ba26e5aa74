import QueQiao.Db.ArchiveFiles
import QueQiao.Db.ArchiveOpening

namespace QueQiao.ArchiveScan

open Lib.CrashLogic Lib.Directory Migrate Cutover

variable {L : Type} {format : Format L} {original db : Database L} {disk : Disk L}
  {P : Disk L → Prop} {stem : String}

variable {weather : String → Weather} {state : Registry L × List String}
  {completed : List (String × Outcome)}

def Outcome.Stays (outcome : Outcome) : Prop := outcome.opened.isSome ∨ outcome.quarantine = false

theorem finishArchive_archives {done : String × Outcome} (h : done.1 = stem → done.2.Stays) :
    (finishArchive weather state done).1.archives stem = state.1.archives stem := by
  obtain ⟨other, outcome⟩ := done
  cases hopened : outcome.opened with
  | some shard => simp only [finishArchive, hopened]
  | none =>
    by_cases hquarantine : outcome.quarantine = true
    · have hne : stem ≠ other := by
        rintro rfl
        rcases h rfl with hsome | hnot
        · rw [hopened] at hsome
          cases hsome
        · exact absurd (hnot.symm.trans hquarantine) Bool.false_ne_true
      simp only [finishArchive, hopened, hquarantine, if_true]
      split
      · exact Function.update_of_ne hne _ _
      · exact Function.update_of_ne hne _ _
    · simp only [finishArchive, hopened, hquarantine, if_false, Bool.false_eq_true]

theorem foldl_archives (h : ∀ done ∈ completed, done.1 = stem → done.2.Stays) :
    (completed.foldl (finishArchive weather) state).1.archives stem = state.1.archives stem := by
  induction completed generalizing state with
  | nil => rfl
  | cons done rest ih =>
    refine (ih fun d hd ↦ h d (List.mem_cons_of_mem _ hd)).trans ?_
    exact finishArchive_archives (h done List.mem_cons_self)

theorem finishArchive_pending {done : String × Outcome}
    (h : done.1 = stem → done.2.opened = none ∧ done.2.busy = true) :
    (finishArchive weather state done).1.shards.get stem = state.1.shards.get stem ∧
      (stem ∈ (finishArchive weather state done).1.failed ↔ stem ∈ state.1.failed) := by
  obtain ⟨other, outcome⟩ := done
  have hfailed : stem ∈ (if outcome.opened.isNone && !outcome.busy then state.1.failed.insert other
      else state.1.failed) ↔ stem ∈ state.1.failed := by
    split
    · rename_i hgiven
      rw [List.mem_insert_iff]
      refine or_iff_right fun heq ↦ ?_
      have hbusy : outcome.busy = true := (h heq.symm).2
      rw [hbusy, Bool.not_true, Bool.and_false] at hgiven
      cases hgiven
    · rfl
  cases hopened : outcome.opened with
  | some shard =>
    have hne : stem ≠ other := by
      rintro rfl
      exact absurd (hopened.symm.trans (h rfl).1) (Option.some_ne_none shard)
    simp only [finishArchive, hopened] at hfailed ⊢
    exact ⟨(Files.get_put stem).trans (if_neg hne), hfailed⟩
  | none =>
    simp only [finishArchive, hopened] at hfailed ⊢
    split
    · split
      · exact ⟨rfl, hfailed⟩
      · exact ⟨rfl, hfailed⟩
    · exact ⟨rfl, hfailed⟩

theorem foldl_pending (h : ∀ done ∈ completed, done.1 = stem → done.2.opened = none ∧ done.2.busy = true) :
    (completed.foldl (finishArchive weather) state).1.shards.get stem = state.1.shards.get stem ∧
      (stem ∈ (completed.foldl (finishArchive weather) state).1.failed ↔ stem ∈ state.1.failed) := by
  induction completed generalizing state with
  | nil => exact ⟨rfl, Iff.rfl⟩
  | cons done rest ih =>
    have hdone := @finishArchive_pending L stem weather state done (h done List.mem_cons_self)
    have hrest := @ih (finishArchive weather state done) fun d hd ↦ h d (List.mem_cons_of_mem _ hd)
    exact ⟨hrest.1.trans hdone.1, hrest.2.trans hdone.2⟩

variable {active : String} {scan : Scan} {registry : Registry L} {entries : List String}

theorem mem_completedTasks {done : String × Outcome}
    (h : done ∈ completedTasks format active scan entries registry) :
    done.1 ∈ pendingStems active entries registry ∧
      done.2 = (taskOf format scan registry done.1).1 := by
  obtain ⟨stem, hstem, rfl⟩ := List.mem_map.mp ((List.perm_insertionSort _ _).mem_iff.mp h)
  exact ⟨hstem, rfl⟩

theorem ensureScanned_archives (hentries : scan.entries = .ok entries)
    (h : stem ∈ pendingStems active entries registry → (taskOf format scan registry stem).1.Stays) :
    (ensureScanned format active scan registry).archives stem =
      if stem ∈ pendingStems active entries registry then (taskOf format scan registry stem).2
      else registry.archives stem := by
  rw [ensureScanned, hentries]
  exact foldl_archives fun done hdone hstem ↦ by
    obtain ⟨hpending, houtcome⟩ := mem_completedTasks hdone
    rw [houtcome, hstem]
    exact h (hstem ▸ hpending)

theorem ensureScanned_pending (hentries : scan.entries = .ok entries)
    (hpending : stem ∈ pendingStems active entries registry)
    (h : (taskOf format scan registry stem).1.opened = none ∧
      (taskOf format scan registry stem).1.busy = true) {next : List String}
    (hnext : stem ∈ archiveStems active next) :
    stem ∈ pendingStems active next (ensureScanned format active scan registry) := by
  obtain ⟨-, hfree⟩ := List.mem_filter.mp hpending
  refine List.mem_filter.mpr ⟨hnext, ?_⟩
  rw [ensureScanned, hentries]
  have hkept := @foldl_pending L stem scan.weather
    (runTasks format active scan entries registry, archiveStems active entries)
    (completedTasks format active scan entries registry) fun done hdone hstem ↦ by
      obtain ⟨-, houtcome⟩ := mem_completedTasks hdone
      rw [houtcome, hstem]
      exact h
  dsimp only [updateSkippedCount]
  rw [hkept.1]
  simp only [hkept.2]
  exact hfree

theorem task_safe (scan : Scan)
    (h : Safe format (archivePath stem) original (registry.archives stem)) :
    Safe format (archivePath stem) original (taskOf format scan registry stem).2 ∧
      (taskOf format scan registry stem).1.Sound ∧
      ((scan.weather stem).opening.Mild → Current original →
        (taskOf format scan registry stem).1.quarantine = false) := by
  rcases h with hholds | hreplaced
  · exact runTask_spec triple_holds hholds
  · obtain ⟨hsafe, hsound, hmild⟩ := runTask_spec triple_replaced hreplaced
    exact ⟨hsafe, hsound, fun h _ ↦ hmild h⟩

theorem safe_of_scan (hmild : (scan.weather stem).opening.Mild) (hcurrent : Current original)
    (h : Safe format (archivePath stem) original (registry.archives stem)) :
    Safe format (archivePath stem) original
      ((ensureScanned format active scan registry).archives stem) := by
  cases hentries : scan.entries with
  | error error =>
    rw [ensureScanned, hentries]
    exact h
  | ok entries =>
    obtain ⟨hsafe, -, hquarantine⟩ := task_safe scan h
    rw [ensureScanned_archives hentries fun _ ↦ .inr (hquarantine hmild hcurrent)]
    split
    · exact hsafe
    · exact h

theorem task_sound : (taskOf format scan registry stem).1.Sound := by
  have hmigrate : Triple Anywhere (fun _ ↦ True)
      (migrateAndReopen format (archivePath stem) stem (scan.weather stem).reopening)
      (fun outcome _ ↦ True ∧ outcome.quarantine = false ∧ outcome.Sound) fun _ _ ↦ False :=
    triple_migrateAndReopen (steady_const True) (fun _ _ ↦ trivial) .anything .anything
  have htask : Triple Anywhere (fun _ ↦ True)
      (openOrMigrate format scan.migrationDisabled (archivePath stem) stem (scan.weather stem))
      (fun outcome _ ↦ outcome.Sound) fun _ _ ↦ False :=
    (triple_openOrMigrate (steady_const True) (fun _ _ ↦ trivial)
      (hmigrate.pre_mono fun _ _ ↦ trivial)).mono (fun _ h ↦ h) (fun _ _ h ↦ h.2.1) fun _ _ h ↦ h
  exact runTask_spec htask trivial

/-- No step of opening the archive fails but as busy, and nothing else puts files in its place. -/
def Event.Calm (stem : String) : Event L → Prop
  | .scan scan => (scan.weather stem).opening.Mild
  | .place other _ => other ≠ stem
  | .restart => True

theorem safe_of_step {event : Event L} (hcalm : event.Calm stem) (hcurrent : Current original)
    (h : Safe format (archivePath stem) original (registry.archives stem)) :
    Safe format (archivePath stem) original ((step format active registry event).archives stem) := by
  cases event with
  | scan scan => exact safe_of_scan hcalm hcurrent h
  | place other disk =>
    have hsame : (step format active registry (.place other disk)).archives stem =
        registry.archives stem := Function.update_of_ne (Ne.symm hcalm) _ _
    rwa [hsame]
  | restart => exact h

theorem safe_of_run {events : List (Event L)} (hcalm : ∀ event ∈ events, event.Calm stem)
    (hcurrent : Current original)
    (h : Safe format (archivePath stem) original (registry.archives stem)) :
    Safe format (archivePath stem) original ((run format active events registry).archives stem) := by
  induction events generalizing registry with
  | nil => exact h
  | cons event events ih =>
    exact ih (fun e he ↦ hcalm e (List.mem_cons_of_mem _ he))
      (safe_of_step (hcalm event List.mem_cons_self) hcurrent h)

theorem busy_safe (hentries : scan.entries = .ok entries)
    (hpending : stem ∈ pendingStems active entries registry)
    (hbusy : (taskOf format scan registry stem).1.busy = true)
    (h : Safe format (archivePath stem) original (registry.archives stem)) :
    Safe format (archivePath stem) original
      ((ensureScanned format active scan registry).archives stem) := by
  rw [ensureScanned_archives hentries fun _ ↦ .inr (task_sound hbusy).2, if_pos hpending]
  exact (task_safe scan h).1

theorem busy_file (hentries : scan.entries = .ok entries)
    (hpending : stem ∈ pendingStems active entries registry)
    (hbusy : (taskOf format scan registry stem).1.busy = true) {file : File L}
    (hfile : ∀ db pending, file ≠ .database db pending)
    (h : (registry.archives stem).get (archivePath stem) = some file) :
    ((ensureScanned format active scan registry).archives stem).get (archivePath stem) = some file := by
  rw [ensureScanned_archives hentries fun _ ↦ .inr (task_sound hbusy).2, if_pos hpending]
  have htask : Triple Anywhere (fun disk ↦ disk.get (archivePath stem) = some file)
      (openOrMigrate format scan.migrationDisabled (archivePath stem) stem (scan.weather stem))
      (fun _ disk ↦ disk.get (archivePath stem) = some file) fun _ _ ↦ False :=
    (triple_file hfile).mono (fun _ h ↦ h) (fun _ _ h ↦ h.1) fun _ _ h ↦ h
  exact runTask_spec htask h

/-- In a run whose scans open an archive without an error, or find it busy, its database is never
put away unless it is of a newer version; and an archive that is busy is left in place for the next
scan. What is put away is kept under a name that was free. -/
theorem scans_keep_archives (format : Format L) (active stem : String) :
    (∀ (events : List (Event L)) registry original, Current original →
      (∀ event ∈ events, event.Calm stem) →
      Safe format (archivePath stem) original (registry.archives stem) →
      Safe format (archivePath stem) original ((run format active events registry).archives stem)) ∧
    (∀ (disk : Disk L) file faults backup (w : World Fault (Disk L)),
      disk.get (archivePath stem) = some file →
      quarantineDatabase (archivePath stem) ⟨disk, faults, []⟩ = (.ok backup, w) →
        disk.get backup = none ∧ w.state.get backup = some file) ∧
    ∀ scan entries (registry : Registry L), scan.entries = .ok entries →
      stem ∈ pendingStems active entries registry →
      (taskOf format scan registry stem).1.busy = true →
      (∀ original, Safe format (archivePath stem) original (registry.archives stem) →
        Safe format (archivePath stem) original
          ((ensureScanned format active scan registry).archives stem)) ∧
      (∀ file, (∀ db pending, file ≠ .database db pending) →
        (registry.archives stem).get (archivePath stem) = some file →
        ((ensureScanned format active scan registry).archives stem).get (archivePath stem) =
          some file) ∧
      ∀ next, stem ∈ archiveStems active next →
        stem ∈ pendingStems active next (ensureScanned format active scan registry) := by
  refine ⟨fun events registry original hcurrent hcalm h ↦ safe_of_run hcalm hcurrent h,
    fun disk file faults backup w hfile hrun ↦ ?_,
    fun scan entries registry hentries hpending hbusy ↦ ⟨fun original ↦ busy_safe hentries hpending hbusy,
      fun file hfile ↦ busy_file hentries hpending hbusy hfile, fun next hnext ↦ ?_⟩⟩
  · have hend := (triple_quarantineDatabase disk hfile ⟨disk, faults, []⟩ rfl).2
    rw [hrun] at hend
    exact hend
  · exact ensureScanned_pending hentries hpending ⟨(task_sound hbusy).1, hbusy⟩ hnext

def twoArchives : Registry Unit :=
  ArchiveRegistry.new fun stem ↦
    ⟨Files.put ∅ (archivePath stem)
      (.database (if stem = "record_202608" then .newer 9 else .legacy ()) []), []⟩

def failing (error : Option DbError) : Scan where
  entries := .ok ["record_202608.db", "record_202609.db"]
  weather stem :=
    if stem = "record_202608" then {}
    else { opening := { errors := fun openStep ↦ if openStep = .probe then error else none } }
  migrationDisabled := false

def noFormat : Format Unit := ⟨fun _ ↦ .error "no such column: Request", "", fun _ _ ↦ 0⟩

theorem failing_calm : Event.Calm (L := Unit) "record_202609" (.scan (failing none)) := by
  refine ⟨fun openStep error h ↦ ?_, rfl⟩
  have hnone : ((failing none).weather "record_202609").opening.errors openStep = none := ite_self none
  rw [hnone] at h
  cases h

theorem scans_keep_archives_legacy :
    Safe noFormat (archivePath "record_202609") (.legacy ())
        ((run noFormat "record.db" [.scan (failing none)] twoArchives).archives "record_202609") ∧
      "record_202609" ∈ pendingStems "record.db" ["record_202609.db"]
        (ensureScanned noFormat "record.db" (failing (some (.busy "database is locked"))) twoArchives) := by
  refine ⟨(scans_keep_archives noFormat "record.db" "record_202609").1 [.scan (failing none)]
    twoArchives (.legacy ()) ⟨by decide, fun _ ↦ SchemaKind.noConfusion⟩ ?_
    (.inl ⟨[], rfl, fun _ h ↦ absurd h List.not_mem_nil⟩), ?_⟩
  · exact List.forall_mem_singleton.mpr failing_calm
  · exact ((scans_keep_archives noFormat "record.db" "record_202609").2.2
      (failing (some (.busy "database is locked"))) _ twoArchives rfl (by decide +kernel)
      (by decide +kernel)).2.2 _ (by decide +kernel)

def putAway : String → Disk Unit :=
  (ensureScanned noFormat "record.db" (failing (some (.driver "I/O error: too many open files")))
    twoArchives).archives

theorem archives_put_away :
    ((putAway "record_202608").get "record_202608.db").isNone ∧
      ((putAway "record_202608").get "record_202608.db.bak").isSome ∧
      ((putAway "record_202609").get "record_202609.db").isNone ∧
      ((putAway "record_202609").get "record_202609.db.bak").isSome := by
  decide +kernel

end QueQiao.ArchiveScan
