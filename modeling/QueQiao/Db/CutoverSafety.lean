import QueQiao.Db.CutoverReplace
import QueQiao.Db.LegacyDatabase

namespace QueQiao.Cutover

open Lib.CrashLogic Lib.Directory Migrate

variable {L : Type}

def Whole (name : String) (db : Database L) (disk : Disk L) : Prop :=
  disk.get name = some (.database db [])

/-- A database with all sidecars that hold a part of it. -/
def Holds (name : String) (db : Database L) (disk : Disk L) : Prop :=
  ∃ pending, disk.get name = some (.database db pending) ∧
    ∀ suffix ∈ pending, suffix ∈ dataSidecars ∧
      ∃ len, 0 < len ∧ disk.get (artifactPath name suffix) = some (.plain len)

def staged (format : Format L) :
    Database L → Option {source : Source // source.records.length ≤ 9223372036854775807}
  | .legacy rows => (format.migrateArchive rows).toOption
  | .v7 source h => some ⟨source, h⟩
  | _ => none

/-- A v8 database that holds every row, as it is inserted. -/
def CopyOf (format : Format L) (original : Database L) (copy : Target) : Prop :=
  ∃ source, staged format original = some source ∧ Complete source.1 copy

section

variable (format : Format L) (path : String) (original : Database L)

def Replaced (disk : Disk L) : Prop :=
  ∃ copy, CopyOf format original copy ∧ Whole path (.v8 copy) disk ∧
    ∃ n, Whole (backupName path n) original disk

/-- The active path names the original, or a copy while a backup of the original is there. -/
def Safe (disk : Disk L) : Prop := Holds path original disk ∨ Replaced format path original disk

end

variable {format : Format L} {path : String} {original db : Database L} {disk : Disk L}
  {names : String → Prop}

theorem Whole.holds {name : String} (h : Whole name db disk) : Holds name db disk :=
  ⟨[], h, fun _ hs ↦ absurd hs List.not_mem_nil⟩

theorem Holds.whole {name : String} (h : Holds name db disk)
    (hdrained : ∀ suffix ∈ dataSidecars, Drained (artifactPath name suffix) disk) :
    Whole name db disk := by
  obtain ⟨pending, hget, hpending⟩ := h
  have hnil : pending = [] := by
    refine List.eq_nil_iff_forall_not_mem.mpr fun suffix hsuffix ↦ ?_
    obtain ⟨hdata, len, hlen, hfile⟩ := hpending suffix hsuffix
    have hzero := hdrained suffix hdata _ hfile
    exact hlen.ne' hzero
  rw [Whole, hget, hnil]

theorem stable_whole {name : String} (h : ¬names name) : Stable names (Whole name db) :=
  stable_get h _

theorem stable_holds {name : String} (h : ¬names name)
    (hsidecars : ∀ suffix ∈ dataSidecars, ¬names (artifactPath name suffix)) :
    Stable names (Holds name db) := by
  rintro disk disk' hagree ⟨pending, hget, hpending⟩
  refine ⟨pending, (hagree.get name h).trans hget, fun suffix hsuffix ↦ ?_⟩
  obtain ⟨hdata, len, hlen, hfile⟩ := hpending suffix hsuffix
  exact ⟨hdata, len, hlen, (hagree.get _ (hsidecars suffix hdata)).trans hfile⟩

theorem stable_replaced (h : ¬names path) (hbackup : ∀ n, ¬names (backupName path n)) :
    Stable names (Replaced format path original) := by
  rintro disk disk' hagree ⟨copy, hcopy, hpath, n, hn⟩
  exact ⟨copy, hcopy, (hagree.get path h).trans hpath, n, (hagree.get _ (hbackup n)).trans hn⟩

theorem stable_original : Stable (Staging path) (Holds path original) :=
  stable_holds not_staging_path fun _ h ↦ not_staging_sidecar (mem_sidecars_of_data h)

theorem holds_drain (fault : Fault) (h : Holds path original disk) :
    Holds path original (drain path fault disk) := by
  obtain ⟨pending, hget, hpending⟩ := h
  rw [drain, hget]
  dsimp only
  split
  · exact ⟨pending, hget, hpending⟩
  · have hnames : Stable (fun m ↦ ∃ suffix ∈ sidecars, m = artifactPath path suffix)
        (Whole path original) := stable_whole fun ⟨suffix, hsuffix, heq⟩ ↦
      append_self_ne (sidecar_ne_empty hsuffix) heq.symm
    have hput : Whole path original (disk.put path (.database original [])) := by
      rw [Whole, Disk.get_put, if_pos rfl]
    refine (hnames _ _ (agreeOff_foldl (fun disk suffix hsuffix ↦ ?_) _) hput).holds
    exact agreeOff_remove ⟨suffix, of_decide_eq_true (List.mem_filter.mp hsuffix).2, rfl⟩

theorem keeps_acquireLock {crash P : Disk L → Prop} (hcrash : ∀ disk, P disk → crash disk)
    (hstable : Stable (Staging path) P) : Keeps crash P (acquireLock path) := by
  refine .bind (keeps_act hcrash fun _ disk h ↦ ?_) fun _ ↦ keeps_act hcrash fun _ _ h ↦ h
  dsimp only
  split
  · exact h
  · exact hstable disk _ (agreeOff_put ⟨"migrate.lock", rfl⟩) h

theorem triple_snapshotSource : Triple (Safe format path original) (Holds path original)
    (snapshotSource path (stagePath path))
    (fun _ disk ↦ Holds path original disk ∧ Whole (stagePath path) original disk)
    fun _ ↦ Holds path original := by
  have hstage : Staging path (stagePath path) := ⟨"stage", rfl⟩
  have hput {disk : Disk L} {file : File L} (h : Holds path original disk) :
      Holds path original (disk.put (stagePath path) file) :=
    stable_original disk _ (agreeOff_put hstage) h
  have hidle : Keeps (Safe format path original) (Holds path original) (sql fun _ disk ↦ disk) :=
    keeps_idle fun _ ↦ .inl
  refine .bind hidle fun _ ↦ .bind hidle fun _ ↦
    .bind (keeps_sql (fun _ ↦ .inl) fun fault _ h ↦ holds_drain fault h) fun _ ↦
    .bind hidle fun _ ↦ .bind hidle fun _ ↦
    .bind (keeps_createEmptyArtifact (fun _ ↦ .inl) stable_original hstage) fun _ ↦
    .bind (keeps_sql (fun _ ↦ .inl) fun _ _ h ↦ hput h) fun _ ↦ ?_
  refine triple_act (fun _ _ h ↦ ⟨.inl h, h⟩) fun _ disk h ↦ ?_
  obtain ⟨pending, hget, -⟩ := id h
  rw [hget]
  dsimp only
  refine ⟨.inl (hput h), hput h, ?_⟩
  rw [Whole, Disk.get_put, if_pos rfl]

theorem triple_migrateStagedLegacy {rows : L} (horiginal : original = .legacy rows) :
    Triple (Safe format path original)
      (fun disk ↦ Holds path original disk ∧ Whole (stagePath path) original disk)
      (migrateStagedLegacy format (stagePath path))
      (fun _ disk ↦ ∃ source, staged format original = some source ∧
        Holds path original disk ∧ Whole (stagePath path) (.ofSource source) disk)
      fun _ ↦ Holds path original := by
  subst horiginal
  have hstage : Staging path (stagePath path) := ⟨"stage", rfl⟩
  have hput {disk : Disk L} {file : File L} (h : Holds path (.legacy rows) disk) :
      Holds path (.legacy rows) (disk.put (stagePath path) file) :=
    stable_original disk _ (agreeOff_put hstage) h
  have hidle : Keeps (Safe format path (.legacy rows))
      (fun disk ↦ Holds path (.legacy rows) disk ∧ Whole (stagePath path) (.legacy rows) disk)
      (sql fun _ disk ↦ disk) := keeps_idle fun _ h ↦ .inl h.1
  refine .bind (hidle.raised_mono fun _ _ h ↦ h.1) fun _ ↦
    .look_bind fun d hd ↦ ?_
  obtain ⟨hpath, hwhole⟩ := hd
  rw [Whole] at hwhole
  rw [hwhole]
  dsimp only
  have hunfinished : Keeps (Safe format path (.legacy rows)) (Holds path (.legacy rows))
      (sql fun _ disk ↦ disk.put (stagePath path) .unfinished) :=
    keeps_sql (fun _ ↦ .inl) fun _ _ h ↦ hput h
  refine .bind (hunfinished.pre_mono fun _ h ↦ h ▸ hpath) fun _ ↦ ?_
  cases hconvert : format.migrateArchive rows with
  | error text => exact .fail fun _ h ↦ h
  | ok source =>
    refine triple_act (fun _ _ h ↦ ⟨.inl h, h⟩) fun _ disk h ↦ ⟨.inl (hput h), source, ?_, hput h, ?_⟩
    · rw [staged, hconvert]
      rfl
    · rw [Whole, Disk.get_put, if_pos rfl]

theorem agreeOff_leave (name : String) (suffixes : List String) (len : ℕ) (disk : Disk L) :
    AgreeOff (fun m ↦ ∃ suffix ∈ suffixes, m = artifactPath name suffix) disk
      (leave name suffixes len disk) :=
  agreeOff_foldl (fun _ suffix hsuffix ↦ agreeOff_put ⟨suffix, hsuffix, rfl⟩) disk

theorem get_leave {suffix : String} {suffixes : List String} (h : suffix ∈ suffixes) (name : String)
    (len : ℕ) (disk : Disk L) :
    (leave name suffixes len disk).get (artifactPath name suffix) = some (.plain len) := by
  induction suffixes generalizing disk with
  | nil => exact absurd h List.not_mem_nil
  | cons first rest ih =>
    by_cases hrest : suffix ∈ rest
    · exact ih hrest _
    obtain rfl : suffix = first := (List.mem_cons.mp h).resolve_right hrest
    have hput : (disk.put (artifactPath name suffix) (.plain len)).get (artifactPath name suffix) =
        some (.plain len) := by rw [Disk.get_put, if_pos rfl]
    refine ((agreeOff_leave name rest len _).get _ ?_).trans hput
    rintro ⟨other, hother, heq⟩
    have hne : suffix ≠ other := fun h ↦ hrest (h ▸ hother)
    exact append_ne hne heq

theorem holds_closeTarget (copy : Target) (fault : Fault) (disk : Disk L) :
    Holds (targetPath path) (.v8 copy) (closeTarget (targetPath path) copy fault disk) := by
  rw [closeTarget]
  have hpending : ∀ s ∈ fault.pending.filter (· ∈ dataSidecars), s ∈ dataSidecars :=
    fun s hs ↦ of_decide_eq_true (List.mem_filter.mp hs).2
  have hemptied : ∀ s ∈ fault.emptied.filter (· ∈ sidecars), s ∈ sidecars :=
    fun s hs ↦ of_decide_eq_true (List.mem_filter.mp hs).2
  generalize fault.pending.filter (· ∈ dataSidecars) = pending at hpending
  generalize fault.emptied.filter (· ∈ sidecars) = emptied at hemptied
  refine ⟨pending, ?_, fun suffix hs ↦ ⟨hpending suffix hs, 1, Nat.one_pos, get_leave hs _ _ _⟩⟩
  rw [(agreeOff_leave _ _ _ _).get, (agreeOff_leave _ _ _ _).get, Disk.get_put, if_pos rfl]
  · rintro ⟨suffix, hs, heq⟩
    exact append_self_ne (sidecar_ne_empty (hemptied suffix hs)) heq.symm
  · rintro ⟨suffix, hs, heq⟩
    exact append_self_ne (sidecar_ne_empty (mem_sidecars_of_data (hpending suffix hs))) heq.symm

theorem agreeOff_closeTarget (copy : Target) (fault : Fault) (disk : Disk L) :
    AgreeOff (Staging path) disk (closeTarget (targetPath path) copy fault disk) := by
  have hleave (suffixes : List String) (len : ℕ) (disk : Disk L) :
      AgreeOff (Staging path) disk (leave (targetPath path) suffixes len disk) :=
    agreeOff_foldl (fun _ suffix _ ↦ agreeOff_put (staging_target suffix)) disk
  exact ((agreeOff_put ⟨"target", rfl⟩).trans (hleave _ _ _)).trans (hleave _ _ _)

theorem triple_run {source : {source : Source // source.records.length ≤ 9223372036854775807}}
    (hstaged : staged format original = some source) :
    Triple (Safe format path original)
      (fun disk ↦ Holds path original disk ∧ Whole (stagePath path) (.ofSource source) disk)
      (run format (stagePath path) (targetPath path))
      (fun _ disk ↦ ∃ copy, CopyOf format original copy ∧ Holds path original disk ∧
        Holds (targetPath path) (.v8 copy) disk)
      fun _ ↦ Holds path original := by
  have hcrash : ∀ disk, (Holds path original disk ∧
      Whole (stagePath path) (.ofSource source) disk) → Safe format path original disk :=
    fun _ h ↦ .inl h.1
  have hstable : Stable (fun m ↦ m = targetPath path) fun disk : Disk L ↦
      Holds path original disk ∧ Whole (stagePath path) (.ofSource source) disk := by
    refine (stable_original.mono fun m hm ↦ hm ▸ ⟨"target", rfl⟩).and (stable_whole ?_)
    exact append_ne (by decide)
  refine .bind ((keeps_idle hcrash).raised_mono fun _ _ h ↦ h.1) fun _ ↦ ?_
  have hcreate : Keeps (Safe format path original)
      (fun disk ↦ Holds path original disk ∧ Whole (stagePath path) (.ofSource source) disk)
      (sql fun _ disk ↦ disk.put (targetPath path) .unfinished) :=
    keeps_sql hcrash fun _ disk h ↦ hstable disk _ (agreeOff_put rfl) h
  refine .bind (hcreate.raised_mono fun _ _ h ↦ h.1) fun _ ↦ ?_
  refine .look_bind fun d hd ↦ ?_
  obtain ⟨hpath, hwhole⟩ := hd
  rw [Whole, Database.ofSource] at hwhole
  rw [hwhole]
  dsimp only
  cases hcopy : runCopy format.indexed source.1 format.copyFailure with
  | error text => exact .fail fun _ h ↦ h ▸ hpath
  | ok copy =>
    have hcomplete := runCopy_complete source.2 hcopy
    have hclose : Triple (Safe format path original) (Holds path original)
        (sql (closeTarget (targetPath path) copy))
        (fun _ disk ↦ ∃ copy, CopyOf format original copy ∧ Holds path original disk ∧
          Holds (targetPath path) (.v8 copy) disk) fun _ ↦ Holds path original := by
      refine triple_act (fun _ _ h ↦ ⟨.inl h, h⟩) fun fault disk h ↦ ?_
      have hkept := stable_original disk _ (agreeOff_closeTarget copy fault disk) h
      exact ⟨.inl hkept, copy, ⟨source, hstaged, hcomplete⟩, hkept, holds_closeTarget copy fault disk⟩
    exact hclose.pre_mono fun _ h ↦ h ▸ hpath

theorem dataDrained {name : String} (h : ∀ suffix ∈ sidecars, Drained (artifactPath name suffix) disk) :
    ∀ suffix ∈ dataSidecars, Drained (artifactPath name suffix) disk :=
  fun suffix hsuffix ↦ h suffix (mem_sidecars_of_data hsuffix)

theorem Renamed.replaced {copy : Target} {disk₀ : Disk L} (h : Renamed path disk₀ disk)
    (hcopy : CopyOf format original copy) (hpath : Holds path original disk₀)
    (htarget : Holds (targetPath path) (.v8 copy) disk₀) : Replaced format path original disk := by
  obtain ⟨n, hn⟩ := h.backup
  exact ⟨copy, hcopy, h.atPath.trans (htarget.whole h.targetDrained), n,
    hn.trans (hpath.whole (dataDrained h.drained))⟩

theorem Kept.holds {disk₀ : Disk L} (h : Kept path disk₀ disk) (hpath : Holds path original disk₀) :
    Holds path original disk := by
  rcases h.sidecars with hsame | hdrained
  · obtain ⟨pending, hget, hpending⟩ := hpath
    refine ⟨pending, h.atPath.trans hget, fun suffix hsuffix ↦ ?_⟩
    obtain ⟨hdata, len, hlen, hfile⟩ := hpending suffix hsuffix
    exact ⟨hdata, len, hlen, (hsame suffix (mem_sidecars_of_data hdata)).trans hfile⟩
  · have hwhole : Whole path original disk := h.atPath.trans (hpath.whole (dataDrained hdrained))
    exact hwhole.holds

/-- The source of the copy is in the staged file. -/
def Staged (format : Format L) (path : String) (original : Database L) (disk : Disk L) : Prop :=
  ∃ source, staged format original = some source ∧ Holds path original disk ∧
    Whole (stagePath path) (.ofSource source) disk

theorem triple_copy : Triple (Safe format path original) (Staged format path original)
    (do
      createEmptyArtifact (targetPath path)
      run format (stagePath path) (targetPath path)
      replaceActive path (targetPath path)
      removeArtifact (stagePath path))
    (fun _ ↦ Replaced format path original) fun _ ↦ Safe format path original := by
  refine .exists_pre fun source ↦ .assuming fun hstaged ↦ ?_
  have hstable : Stable (fun m ↦ m = targetPath path) fun disk : Disk L ↦
      Holds path original disk ∧ Whole (stagePath path) (.ofSource source) disk :=
    (stable_original.mono fun m hm ↦ hm ▸ staging_targetPath).and
      (stable_whole (append_ne (by decide)))
  have hcreate : Keeps (Safe format path original)
      (fun disk ↦ Holds path original disk ∧ Whole (stagePath path) (.ofSource source) disk)
      (createEmptyArtifact (targetPath path)) :=
    keeps_createEmptyArtifact (fun _ h ↦ .inl h.1) hstable rfl
  refine .bind (hcreate.raised_mono fun _ _ h ↦ .inl h.1) fun _ ↦
    .bind ((triple_run hstaged).raised_mono fun _ _ ↦ .inl) fun _ ↦ ?_
  have hremove : Keeps (Safe format path original) (Replaced format path original)
      (removeArtifact (stagePath path)) :=
    keeps_removeArtifact (fun _ ↦ .inr) (stable_replaced not_staging_path not_staging_backupName)
      fun suffix _ ↦ staging_stage suffix
  refine .bind (.of_each fun disk₀ h ↦ ?_) fun _ ↦ hremove.raised_mono fun _ _ ↦ .inr
  obtain ⟨copy, hcopy, hpath, htarget⟩ := h
  refine ((triple_replaceActive disk₀).crash_mono fun _ h ↦ ?_).mono (fun _ h ↦ h)
    (fun _ _ h ↦ h.replaced hcopy hpath htarget) fun _ _ h ↦ ?_
  · exact h.elim (fun h ↦ .inl (h.holds hpath)) fun h ↦ .inr (h.replaced hcopy hpath htarget)
  · exact h.elim (fun h ↦ .inr (h.replaced hcopy hpath htarget)) fun h ↦ .inl (h.1.holds hpath)

theorem triple_detectSchema {name : String} :
    Triple (Safe format path original)
      (fun disk ↦ Holds path original disk ∧ Whole name db disk) (detectSchema name)
      (fun kind disk ↦ kind = db.kind ∧ Holds path original disk ∧ Whole name db disk)
      fun _ ↦ Safe format path original := by
  refine triple_act (fun _ _ h ↦ ⟨.inl h.1, .inl h.1⟩) fun _ disk h ↦ ?_
  have hwhole := h.2
  rw [Whole] at hwhole
  rw [hwhole]
  exact ⟨.inl h.1, rfl, h⟩

theorem triple_checked (hdb : db.kind = .v7 →
      ∃ source, staged format original = some source ∧ db = .ofSource source) :
    Triple (Safe format path original)
      (fun disk ↦ Holds path original disk ∧ Whole (stagePath path) db disk)
      (do
        if (← detectSchema (stagePath path)) ≠ .v7 then
          .fail (.shape "staged SQLite source did not become v7")
        createEmptyArtifact (targetPath path)
        run format (stagePath path) (targetPath path)
        replaceActive path (targetPath path)
        removeArtifact (stagePath path))
      (fun _ ↦ Replaced format path original) fun _ ↦ Safe format path original := by
  refine .bind triple_detectSchema fun kind ↦ .assuming fun hkind ↦ ?_
  subst hkind
  split
  · have hfail (text : String) : Triple (Safe format path original)
        (fun disk ↦ Holds path original disk ∧ Whole (stagePath path) db disk)
        (.fail (.shape text) : Cut L Unit) (fun _ _ ↦ False) fun _ ↦ Safe format path original :=
      .fail fun _ h ↦ .inl h.1
    exact .bind (hfail _) fun _ _ h ↦ h.elim
  · rename_i hv7
    obtain ⟨source, hstaged, rfl⟩ := hdb (not_not.mp hv7)
    exact triple_copy.pre_mono fun _ h ↦ ⟨source, hstaged, h⟩

theorem triple_migrateStaged : Triple (Safe format path original)
    (fun disk ↦ Holds path original disk ∧ Whole (stagePath path) original disk)
    (migrateStaged format path (stagePath path) (targetPath path))
    (fun _ ↦ Replaced format path original) fun _ ↦ Safe format path original := by
  refine .bind triple_detectSchema fun kind ↦ .assuming fun hkind ↦ ?_
  subst hkind
  split
  · rename_i hlegacy
    cases original with
    | legacy rows =>
      refine .bind ((triple_migrateStagedLegacy rfl).raised_mono fun _ _ ↦ .inl) fun _ ↦
        .exists_pre fun source ↦ .assuming fun hstaged ↦ ?_
      exact triple_checked fun _ ↦ ⟨source, hstaged, rfl⟩
    | _ => cases hlegacy
  · refine triple_checked fun hv7 ↦ ?_
    cases original with
    | v7 source h => exact ⟨⟨source, h⟩, rfl, rfl⟩
    | _ => cases hv7

theorem keeps_removePathSidecars : Keeps (Safe format path original) (Replaced format path original)
    (removeSidecars path) := by
  have hstable : Stable (fun m ↦ ∃ suffix ∈ sidecars, m = artifactPath path suffix)
      (Replaced format path original) := by
    refine stable_replaced ?_ ?_
    · rintro ⟨suffix, hsuffix, h⟩
      exact append_self_ne (sidecar_ne_empty hsuffix) h.symm
    · rintro n ⟨suffix, hsuffix, h⟩
      exact backupName_ne_sidecar hsuffix h
  exact keeps_removeSidecars (fun _ ↦ .inr) hstable fun suffix hsuffix ↦ ⟨suffix, hsuffix, rfl⟩

theorem triple_migratePath : Triple (Safe format path original) (Holds path original)
    (migratePath format path (stagePath path) (targetPath path))
    (fun _ ↦ Replaced format path original) fun _ ↦ Safe format path original := by
  have hremove (name : String) (h : ∀ suffix, Staging path (artifactPath name suffix)) :
      Keeps (Safe format path original) (Holds path original) (removeArtifact name) :=
    keeps_removeArtifact (fun _ ↦ .inl) stable_original fun suffix _ ↦ h suffix
  refine .bind ((hremove _ staging_stage).raised_mono fun _ _ ↦ .inl) fun _ ↦
    .bind ((hremove _ staging_target).raised_mono fun _ _ ↦ .inl) fun _ ↦
    .bind ((keeps_touch (fun _ ↦ .inl) _ _).raised_mono fun _ _ ↦ .inl) fun _ ↦
    .bind (triple_snapshotSource.raised_mono fun _ _ ↦ .inl) fun _ ↦
    .bind_attempt triple_migrateStaged (fun _ ↦ ?_) fun _ ↦ .fail fun _ ↦ id
  exact keeps_removePathSidecars.raised_mono fun _ _ ↦ .inr

theorem triple_detectPath {crash P : Disk L → Prop} (hcrash : ∀ disk, P disk → crash disk) :
    Triple crash P (detectSchema path)
      (fun kind disk ↦ probeSchema (disk.get path) = .ok kind ∧ P disk) fun _ ↦ P := by
  refine triple_act (fun _ disk h ↦ ⟨hcrash disk h, h⟩) fun _ disk h ↦ ⟨hcrash disk h, ?_⟩
  dsimp only
  cases hprobe : probeSchema (disk.get path) with
  | ok kind => exact ⟨hprobe, h⟩
  | error error => exact h

theorem keeps_unmigrated {crash P : Disk L → Prop} (hcrash : ∀ disk, P disk → crash disk)
    (hstable : Stable (Staging path) P)
    (hkind : ∀ disk kind, P disk → probeSchema (disk.get path) = .ok kind →
      kind ≠ .legacy ∧ kind ≠ .v7) : Keeps crash P (migratePathToV8 format path) := by
  have hremove (name : String) (h : ∀ suffix, Staging path (artifactPath name suffix)) :
      Keeps crash P (removeArtifact name) :=
    keeps_removeArtifact hcrash hstable fun suffix _ ↦ h suffix
  refine .bind (keeps_acquireLock hcrash hstable) fun _ ↦ .bind (triple_detectPath hcrash)
    fun kind ↦ ?_
  cases kind with
  | v8 =>
    refine Triple.pre_mono (.bind (hremove _ staging_stage) fun _ ↦ ?_) fun _ h ↦ h.2
    exact hremove _ staging_target
  | legacy => exact .of_each fun disk h ↦ absurd rfl (hkind disk _ h.2 h.1).1
  | v7 => exact .of_each fun disk h ↦ absurd rfl (hkind disk _ h.2 h.1).2
  | empty => exact .fail fun _ h ↦ h.2
  | newer version => exact .fail fun _ h ↦ h.2
  | unknown => exact .fail fun _ h ↦ h.2

theorem probeSchema_holds (h : Holds path db disk) : probeSchema (disk.get path) = .ok db.kind := by
  obtain ⟨pending, hget, -⟩ := h
  rw [hget]
  rfl

theorem probeSchema_replaced (h : Replaced format path original disk) :
    probeSchema (disk.get path) = .ok .v8 := by
  obtain ⟨copy, -, hwhole, -⟩ := h
  exact probeSchema_holds hwhole.holds

theorem triple_migratePathToV8 : Triple (Safe format path original) (Holds path original)
    (migratePathToV8 format path)
    (fun _ disk ↦ Replaced format path original disk ∨
      (original.kind ≠ .legacy ∧ original.kind ≠ .v7) ∧ Holds path original disk)
    fun _ ↦ Safe format path original := by
  by_cases hold : original.kind = .legacy ∨ original.kind = .v7
  · refine .bind ((keeps_acquireLock (fun _ ↦ .inl) stable_original).raised_mono fun _ _ ↦ .inl)
      fun _ ↦ .bind ((triple_detectPath fun _ ↦ .inl).raised_mono fun _ _ ↦ .inl) fun kind ↦
        .of_each fun disk hdisk ↦ ?_
    have hkind : kind = original.kind :=
      Except.ok.inj (hdisk.1.symm.trans (probeSchema_holds hdisk.2))
    have hmigrate : Triple (Safe format path original) (· = disk)
        (migratePath format path (stagePath path) (targetPath path))
        (fun _ disk ↦ Replaced format path original disk ∨
          (original.kind ≠ .legacy ∧ original.kind ≠ .v7) ∧ Holds path original disk)
        fun _ ↦ Safe format path original :=
      triple_migratePath.mono (fun _ (h : _ = disk) ↦ h ▸ hdisk.2) (fun _ _ ↦ .inl) fun _ _ ↦ id
    rcases hold with hlegacy | hv7
    · rw [hkind.trans hlegacy]
      exact hmigrate
    · rw [hkind.trans hv7]
      exact hmigrate
  · have hnot := not_or.mp hold
    have hkeeps : Keeps (Safe format path original) (Holds path original)
        (migratePathToV8 format path) := by
      refine keeps_unmigrated (fun _ ↦ .inl) stable_original fun disk kind h hprobe ↦ ?_
      obtain rfl : kind = original.kind := Except.ok.inj (hprobe.symm.trans (probeSchema_holds h))
      exact hnot
    exact hkeeps.mono (fun _ ↦ id) (fun _ _ h ↦ .inr ⟨hnot, h⟩) fun _ _ ↦ .inl

theorem keeps_replaced : Keeps (Safe format path original) (Replaced format path original)
    (migratePathToV8 format path) := by
  refine keeps_unmigrated (fun _ ↦ .inr)
    (stable_replaced not_staging_path not_staging_backupName) fun disk kind h hprobe ↦ ?_
  obtain rfl : kind = .v8 := Except.ok.inj (hprobe.symm.trans (probeSchema_replaced h))
  exact ⟨by decide, by decide⟩

theorem keeps_migratePathToV8 : Keeps (Safe format path original) (Safe format path original)
    (migratePathToV8 format path) :=
  .or_pre (triple_migratePathToV8.mono (fun _ ↦ id)
      (fun _ _ h ↦ h.elim .inr fun h ↦ .inl h.2) fun _ _ ↦ id)
    (keeps_replaced.mono (fun _ ↦ id) (fun _ _ ↦ .inr) fun _ _ ↦ .inr)

theorem undone_of_error {disk₀ : Disk L} {faults : List Fault} {error : DbError}
    {w : World Fault (Disk L)}
    (hrun : replaceActive path (targetPath path) ⟨disk₀, faults, [disk₀]⟩ = (.error error, w))
    (hrenamed : ¬Renamed path disk₀ w.state) :
    w.state.get path = disk₀.get path ∧ Restored path disk₀ w.state := by
  have hend : Ends (fun _ ↦ Renamed path disk₀)
      (fun _ disk ↦ Renamed path disk₀ disk ∨ Undone path disk₀ disk)
      (replaceActive path (targetPath path) ⟨disk₀, faults, [disk₀]⟩).2.state
      (replaceActive path (targetPath path) ⟨disk₀, faults, [disk₀]⟩).1 :=
    (triple_replaceActive disk₀ _ rfl).2
  rw [hrun] at hend
  have hundone := hend.resolve_left hrenamed
  exact ⟨hundone.1.atPath, hundone.2⟩

section Legacy

open Legacy Lib.Keyset

/-- The format of the binary: a legacy database is converted by `migrate_archive`. -/
def Format.ofConversion {Headers : Type} (conversion : Conversion Headers) (copyFailure : String)
    (indexed : Target → String → ℕ) : Format LegacyDatabase where
  migrateArchive := conversion.migrateArchive
  copyFailure := copyFailure
  indexed := indexed

def Database.recordIds : Database LegacyDatabase → List ℤ
  | .legacy db => db.records.map SourceRow.id
  | .v7 source _ => source.records.map SourceRow.id
  | _ => []

theorem CopyOf.recordIds {Headers : Type} {conversion : Conversion Headers} {copyFailure : String}
    {indexed : Target → String → ℕ} {original : Database LegacyDatabase} {copy : Target}
    (h : CopyOf (.ofConversion conversion copyFailure indexed) original copy) :
    copy.records.rows.map Prod.fst = original.recordIds := by
  obtain ⟨source, hsource, hcomplete⟩ := h
  rw [ids_of_keyed hcomplete.records]
  cases original with
  | legacy db =>
    have hoption : (conversion.migrateArchive db).toOption = some source := hsource
    cases hconvert : conversion.migrateArchive db with
    | error text =>
      rw [hconvert] at hoption
      cases hoption
    | ok converted =>
      rw [hconvert] at hoption
      cases hoption
      exact Conversion.ids_migrateArchive hconvert
  | v7 source h =>
    cases hsource
    rfl
  | _ => cases hsource

/-- At every point at which a process can fail or stop, and after any restarts, the active path names
the complete original, or a complete verified copy while there is a backup of the original; of a
legacy original it is what `migrate_archive` makes of it that is copied, every record under its id.
A cutover that fails before the target is renamed leaves the active path as it was, and with it
every sidecar but those that could not be moved back, which the log names and the backup holds. -/
theorem migratePathToV8_safe {Headers : Type} (conversion : Conversion Headers)
    (copyFailure : String) (indexed : Target → String → ℕ) (path : String)
    (original : Database LegacyDatabase) (disk : Disk LegacyDatabase)
    (h : Holds path original disk) :
    let format := Format.ofConversion conversion copyFailure indexed
    (∀ disk', Restarts (migratePathToV8 format path) disk disk' → Safe format path original disk') ∧
      (∀ copy, CopyOf format original copy →
        copy.records.rows.map Prod.fst = original.recordIds) ∧
      ∀ disk₀ faults error (w : World Fault (Disk LegacyDatabase)),
        replaceActive path (targetPath path) ⟨disk₀, faults, [disk₀]⟩ = (.error error, w) →
        ¬Renamed path disk₀ w.state →
          w.state.get path = disk₀.get path ∧ Restored path disk₀ w.state :=
  ⟨fun _ ↦ keeps_migratePathToV8.restarts (.inl h), fun _ hcopy ↦ hcopy.recordIds,
    fun _ _ _ _ ↦ undone_of_error⟩

def chatDatabase : LegacyDatabase where
  columns := selectColumns ++ ["IP", "Model", "CompletionTokens", "PromptTokens", "TotalTokens"]
  records := [⟨1, fun name ↦
    if name = "Type" then .text "chat.completions" else if name = "Request" then .text chatBody
    else .null⟩]
  payloads := []
  ascending_records := List.pairwise_singleton _ _
  ascending_payloads := ascending_nil
  count_le := Nat.le_of_ble_eq_true rfl

def chatConversion : Conversion Unit :=
  ⟨plainExtraction, chatParsers chatBody, Audit.strict, none,
    fun _ ↦ ⟨⟨true, true⟩, ⟨true, true⟩, ⟨true, true⟩⟩⟩

theorem migratePathToV8_safe_chat :
    Safe (.ofConversion chatConversion "" fun _ _ ↦ 0) "record.db" (.legacy chatDatabase)
      ⟨Files.put ∅ "record.db" (.database (.legacy chatDatabase) []), []⟩ :=
  (migratePathToV8_safe chatConversion "" _ "record.db" _ _
    ⟨[], rfl, fun _ h ↦ absurd h List.not_mem_nil⟩).1 _ .refl

end Legacy

def crowded : Disk Legacy.LegacyDatabase where
  files :=
    (((Files.put ∅ "record.db" (.database (.legacy chatDatabase) [])).put "record.db.v8-target"
      (.database (.v8 ⟨.empty, .empty⟩) [])).put "record.db-wal" (.plain 0)).put
      "record.db-journal" (.plain 0)
  log := []

def stuck : Except DbError Unit × World Fault (Disk Legacy.LegacyDatabase) :=
  let faults := List.replicate 12 default ++
    List.replicate 2 { error := some (.driver "Read-only file system (os error 30)") }
  replaceActive "record.db" (targetPath "record.db") ⟨crowded, faults, [crowded]⟩

theorem sidecar_left_with_backup :
    stuck.1 = .error
        (.shape "cannot preserve database sidecar: Read-only file system (os error 30)") ∧
      (stuck.2.state.get (targetPath "record.db")).isSome ∧
      (crowded.get "record.db-wal").isSome ∧ (stuck.2.state.get "record.db-wal").isNone ∧
      (stuck.2.state.get "record.db.bak-wal").isSome := by
  decide +kernel

end QueQiao.Cutover
