import QueQiao.Db.Cutover

namespace QueQiao.Cutover

open Lib.CrashLogic Lib.Directory Migrate

variable {L α : Type} {disk disk' : Disk L} {name old new path : String} {file : File L} {n : ℕ}

namespace Disk

theorem get_put (m : String) : (disk.put name file).get m = if m = name then some file else disk.get m :=
  Files.get_put m

theorem get_remove (m : String) : (disk.remove name).get m = if m = name then none else disk.get m :=
  Files.get_remove m

theorem get_move (h : disk.get old = some file) (m : String) :
    (disk.move old new).get m =
      if m = new then some file else if m = old then none else disk.get m :=
  Files.get_move h m

end Disk

theorem append_ne {s t : String} (h : s ≠ t) : path ++ s ≠ path ++ t := fun heq ↦ h (by
  have hlist := congrArg String.toList heq
  rw [String.toList_append, String.toList_append] at hlist
  exact String.toList_inj.mp (List.append_cancel_left hlist))

theorem append_self_ne {s : String} (h : s ≠ "") : path ++ s ≠ path := by
  have hne : path ++ s ≠ path ++ "" := append_ne h
  rwa [String.append_empty] at hne

theorem backupName_eq (path : String) (n : ℕ) : ∃ rest, backupName path n = path ++ (".bak" ++ rest) := by
  rw [backupName]
  split
  · exact ⟨"", by rw [String.append_empty]⟩
  · exact ⟨"." ++ toString n, by simp only [String.append_assoc]⟩

theorem append_ne_of_start {s t u : String} (hs : t.toList <+: s.toList) (hu : ¬t.toList <+: u.toList) :
    path ++ s ≠ path ++ u := append_ne fun heq ↦ hu (heq ▸ hs)

theorem backupName_ne {s : String} (hs : ¬".bak".toList <+: s.toList) (t : String) :
    backupName path n ++ t ≠ path ++ s := by
  obtain ⟨rest, hrest⟩ := backupName_eq path n
  rw [hrest, String.append_assoc]
  refine append_ne_of_start ?_ hs
  rw [String.append_assoc, String.toList_append]
  exact List.prefix_append _ _

/-- The names of the staged copies and of the lock. -/
def Staging (path name : String) : Prop := ∃ rest, name = path ++ (".v8-" ++ rest)

theorem staging_append (rest suffix : String) :
    Staging path (path ++ (".v8-" ++ rest) ++ suffix) :=
  ⟨rest ++ suffix, by simp only [String.append_assoc]⟩

theorem not_staging {s : String} (hs : ¬".v8-".toList <+: s.toList) : ¬Staging path (path ++ s) := by
  rintro ⟨rest, hrest⟩
  refine append_ne_of_start ?_ hs hrest.symm
  rw [String.toList_append]
  exact List.prefix_append _ _

theorem not_staging_path : ¬Staging path path := by
  have h : ¬Staging path (path ++ "") := not_staging (by decide)
  rwa [String.append_empty] at h

theorem not_staging_backup (suffix : String) : ¬Staging path (backupName path n ++ suffix) := by
  obtain ⟨rest, hrest⟩ := backupName_eq path n
  rw [hrest, String.append_assoc]
  refine not_staging ?_
  rw [String.append_assoc, String.toList_append]
  intro h
  have hsame := List.prefix_of_prefix_length_le h (List.prefix_append ".bak".toList _) (by decide)
  exact absurd hsame (by decide)

def stagePath (path : String) : String := artifactPath path ".v8-stage"

def targetPath (path : String) : String := artifactPath path ".v8-target"

theorem staging_stage (suffix : String) : Staging path (artifactPath (stagePath path) suffix) :=
  staging_append "stage" suffix

theorem staging_target (suffix : String) : Staging path (artifactPath (targetPath path) suffix) :=
  staging_append "target" suffix

theorem staging_targetPath : Staging path (targetPath path) := ⟨"target", rfl⟩

theorem not_staging_backupName (n : ℕ) : ¬Staging path (backupName path n) := by
  have h : ¬Staging path (backupName path n ++ "") := not_staging_backup ""
  rwa [String.append_empty] at h

theorem sidecar_ne_empty {suffix : String} (h : suffix ∈ sidecars) : suffix ≠ "" :=
  (by decide : ∀ s ∈ sidecars, s ≠ "") suffix h

theorem mem_sidecars_of_data {suffix : String} (h : suffix ∈ dataSidecars) : suffix ∈ sidecars :=
  (by decide : ∀ s ∈ dataSidecars, s ∈ sidecars) suffix h

theorem not_staging_sidecar {suffix : String} (h : suffix ∈ sidecars) :
    ¬Staging path (artifactPath path suffix) :=
  not_staging ((by decide : ∀ s ∈ sidecars, ¬".v8-".toList <+: s.toList) suffix h)

/-- What the name of a backup has behind `.bak`. -/
def backupRest (n : ℕ) : String := if n = 0 then "" else "." ++ toString n

theorem backupName_eq_rest (path : String) (n : ℕ) :
    backupName path n = path ++ ".bak" ++ backupRest n := by
  rw [backupName, backupRest]
  split
  · rw [String.append_empty]
  · rw [String.append_assoc]

theorem digits_ne_dash {c : Char} (h : c ∈ (toString n).toList) : c ≠ '-' := by
  rw [Nat.toString_eq_ofList_toDigits, String.toList_ofList] at h
  have hdigit := Nat.isDigit_of_mem_toDigits (by decide) (by decide) h
  rintro rfl
  exact absurd hdigit (by decide)

theorem takeWhile_backupRest {s : String} (hs : s ∈ "" :: sidecars) :
    (backupRest n ++ s).toList.takeWhile (· ≠ '-') = (backupRest n).toList := by
  have hrest : ∀ c ∈ (backupRest n).toList, (c ≠ '-' : Bool) = true := by
    intro c hc
    rw [backupRest] at hc
    split at hc
    · cases hc
    · rw [String.toList_append] at hc
      refine decide_eq_true ?_
      rcases List.mem_append.mp hc with hc | hc
      · rw [List.mem_singleton.mp hc]
        decide
      · exact digits_ne_dash hc
  have hsidecar : ∀ s ∈ "" :: sidecars, s.toList.takeWhile (· ≠ '-') = [] := by decide
  rw [String.toList_append, List.takeWhile_append_of_pos hrest, hsidecar s hs, List.append_nil]

theorem backupRest_inj {i j : ℕ} (h : backupRest i = backupRest j) : i = j := by
  have hlist := congrArg (fun s ↦ Nat.ofDigitChars 10 (s.toList.drop 1) 0) h
  have hvalue (n : ℕ) : Nat.ofDigitChars 10 ((backupRest n).toList.drop 1) 0 = n := by
    rw [backupRest]
    split
    · rename_i hzero
      rw [hzero]
      rfl
    · rw [String.toList_append]
      change Nat.ofDigitChars 10 (toString n).toList 0 = n
      simp
  rwa [hvalue, hvalue] at hlist

theorem backupName_blocked {i j : ℕ} {s t : String} (hs : s ∈ "" :: sidecars)
    (ht : t ∈ "" :: sidecars) (hi : name = backupName path i ++ s) (hj : name = backupName path j ++ t) :
    i = j := by
  rw [hi, backupName_eq_rest, backupName_eq_rest, String.append_assoc, @String.append_assoc (path ++ ".bak") (backupRest j) t,
    String.append_right_inj] at hj
  have htake := congrArg (fun s ↦ s.toList.takeWhile (· ≠ '-')) hj
  simp only [takeWhile_backupRest hs, takeWhile_backupRest ht] at htake
  exact backupRest_inj (String.toList_inj.mp htake)

theorem mem_sidecars {s : String} :
    s ∈ "" :: sidecars ↔ s = "" ∨ s ∈ ["-journal", "-wal", "-shm"] := by
  simp only [sidecars, List.mem_cons, List.not_mem_nil, or_false]
  tauto

theorem get_uniqueBackupPath (disk : Disk L) (path : String) {s : String} (hs : s ∈ "" :: sidecars) :
    disk.get (uniqueBackupPath disk.files path ++ s) = none := by
  have hblocks : ∀ name ∈ disk.files.keys, ∀ i j,
      (∃ s ∈ "" :: sidecars, name = backupName path i ++ s) →
      (∃ s ∈ "" :: sidecars, name = backupName path j ++ s) → i = j :=
    fun name _ i j ⟨s, hs, hi⟩ ⟨t, ht, hj⟩ ↦ backupName_blocked hs ht hi hj
  obtain ⟨i, hi, hfree⟩ := exists_free hblocks
  have hfreeName : isFree disk.files (backupName path i) = true := by
    have hnot (s : String) (hs : s ∈ "" :: sidecars) : backupName path i ++ s ∉ disk.files :=
      fun hmem ↦ hfree _ (AList.mem_keys.mp hmem) ⟨s, hs, rfl⟩
    have hbase := hnot "" (by decide)
    rw [String.append_empty] at hbase
    rw [isFree, Bool.and_eq_true, List.all_eq_true]
    refine ⟨decide_eq_true hbase, fun suffix hsuffix ↦ decide_eq_true (hnot suffix ?_)⟩
    exact mem_sidecars.mpr (.inr hsuffix)
  have hfound : ((List.range (disk.files.keys.length + 1)).find? fun n ↦
      isFree disk.files (backupName path n)).isSome = true :=
    List.find?_isSome.mpr ⟨i, List.mem_range.mpr hi, hfreeName⟩
  obtain ⟨n, hn⟩ := Option.isSome_iff_exists.mp hfound
  have hname : isFree disk.files (uniqueBackupPath disk.files path) = true := by
    have hfreeNumber := List.find?_some hn
    rw [uniqueBackupPath, backupNumber, hn]
    exact hfreeNumber
  rw [isFree, Bool.and_eq_true, List.all_eq_true] at hname
  refine Files.get_eq_none.mpr ?_
  rcases mem_sidecars.mp hs with rfl | hs
  · rw [String.append_empty]
    exact of_decide_eq_true hname.1
  · exact of_decide_eq_true (hname.2 s hs)

/-- The files off the given names are the same, and the log is. -/
structure AgreeOff (names : String → Prop) (disk disk' : Disk L) : Prop where
  log : disk'.log = disk.log
  get : ∀ m, ¬names m → disk'.get m = disk.get m

/-- What does not depend on the files of the given names. -/
def Stable (names : String → Prop) (P : Disk L → Prop) : Prop :=
  ∀ disk disk', AgreeOff names disk disk' → P disk → P disk'

variable {names : String → Prop} {crash P Q : Disk L → Prop}

theorem ne_of_names {m : String} (h : names name) (hm : ¬names m) : m ≠ name :=
  fun heq ↦ hm (heq ▸ h)

theorem agreeOff_put (h : names name) : AgreeOff names disk (disk.put name file) where
  log := rfl
  get m hm := by rw [Disk.get_put, if_neg (ne_of_names h hm)]

theorem agreeOff_remove (h : names name) : AgreeOff names disk (disk.remove name) where
  log := rfl
  get m hm := by rw [Disk.get_remove, if_neg (ne_of_names h hm)]

theorem agreeOff_move (hold : names old) (hnew : names new) (hfile : disk.get old = some file) :
    AgreeOff names disk (disk.move old new) where
  log := rfl
  get m hm := by
    rw [Disk.get_move hfile, if_neg (ne_of_names hnew hm), if_neg (ne_of_names hold hm)]

namespace AgreeOff

theorem refl (names : String → Prop) (disk : Disk L) : AgreeOff names disk disk := ⟨rfl, fun _ _ ↦ rfl⟩

theorem trans {disk'' : Disk L} (h : AgreeOff names disk disk') (h' : AgreeOff names disk' disk'') :
    AgreeOff names disk disk'' :=
  ⟨h'.log.trans h.log, fun m hm ↦ (h'.get m hm).trans (h.get m hm)⟩

theorem mono {names' : String → Prop} (h : AgreeOff names disk disk') (hnames : ∀ m, names m → names' m) :
    AgreeOff names' disk disk' :=
  ⟨h.log, fun m hm ↦ h.get m fun hm' ↦ hm (hnames m hm')⟩

end AgreeOff

theorem agreeOff_foldl {f : Disk L → String → Disk L} {suffixes : List String}
    (h : ∀ disk, ∀ suffix ∈ suffixes, AgreeOff names disk (f disk suffix)) (disk : Disk L) :
    AgreeOff names disk (suffixes.foldl f disk) := by
  induction suffixes generalizing disk with
  | nil => exact .refl names disk
  | cons suffix suffixes ih =>
    exact (h disk suffix List.mem_cons_self).trans
      (ih (fun disk s hs ↦ h disk s (List.mem_cons_of_mem _ hs)) _)

theorem Stable.and (hP : Stable names P) (hQ : Stable names Q) :
    Stable names fun disk ↦ P disk ∧ Q disk :=
  fun disk disk' h hpq ↦ ⟨hP disk disk' h hpq.1, hQ disk disk' h hpq.2⟩

theorem Stable.mono {names' : String → Prop} (hP : Stable names P) (h : ∀ m, names' m → names m) :
    Stable names' P :=
  fun disk disk' hagree ↦ hP disk disk' (hagree.mono h)

theorem stable_get (h : ¬names name) (x : Option (File L)) :
    Stable names fun disk ↦ disk.get name = x :=
  fun _ _ hagree hget ↦ (hagree.get name h).trans hget

/-- The program keeps a condition whether it fails or not. -/
def Keeps (crash P : Disk L → Prop) (p : Cut L α) : Prop :=
  Triple crash P p (fun _ ↦ P) fun _ ↦ P

theorem triple_act {raise : DbError → DbError} {f : Fault → Disk L → Except DbError α × Disk L}
    {pre : Disk L → Prop} {post : α → Disk L → Prop} {raised : DbError → Disk L → Prop}
    (hfail : ∀ error disk, pre disk → crash disk ∧ raised (raise error) disk)
    (h : ∀ fault disk, pre disk →
      crash (f fault disk).2 ∧ Ends post raised (f fault disk).2 (f fault disk).1) :
    Triple crash pre (act raise f) post raised := by
  refine .step fun fault disk hpre ↦ ?_
  cases fault.error with
  | some error => exact hfail error disk hpre
  | none => exact h fault disk hpre

section

variable (hcrash : ∀ disk, P disk → crash disk)

include hcrash

theorem keeps_act {raise : DbError → DbError} {f : Fault → Disk L → Except DbError α × Disk L}
    (h : ∀ fault disk, P disk → P (f fault disk).2) : Keeps crash P (act raise f) := by
  refine triple_act (fun _ disk hP ↦ ⟨hcrash disk hP, hP⟩) fun fault disk hP ↦ ?_
  have hnext := h fault disk hP
  refine ⟨hcrash _ hnext, ?_⟩
  revert hnext
  cases (f fault disk).1 with
  | ok a => exact id
  | error error => exact id

theorem keeps_sql {effect : Fault → Disk L → Disk L} (h : ∀ fault disk, P disk → P (effect fault disk)) :
    Keeps crash P (sql effect) := keeps_act hcrash h

theorem keeps_idle : Keeps crash P (sql fun _ disk ↦ disk) := keeps_sql hcrash fun _ _ hP ↦ hP

theorem keeps_touch (text name : String) : Keeps crash P (touch text name) := by
  refine keeps_act hcrash fun _ disk hP ↦ ?_
  cases disk.get name <;> exact hP

omit hcrash in
theorem keeps_forEach {β : Type} {f : β → Cut L Unit} {as : List β} (h : ∀ a ∈ as, Keeps crash P (f a)) :
    Keeps crash P (.forEach f as) := by
  induction as with
  | nil => exact .ret fun _ hP ↦ hP
  | cons a as ih =>
    exact .bind (h a List.mem_cons_self) fun _ ↦ ih fun b hb ↦ h b (List.mem_cons_of_mem _ hb)

variable (hstable : Stable names P)

include hstable

theorem keeps_removeFile (text : String) (h : names name) : Keeps crash P (removeFile text name) :=
  keeps_act hcrash fun _ disk hP ↦ hstable disk _ (agreeOff_remove h) hP

theorem keeps_removeArtifact (h : ∀ suffix ∈ "" :: sidecars, names (artifactPath name suffix)) :
    Keeps crash P (removeArtifact name) :=
  keeps_forEach fun suffix hsuffix ↦ keeps_removeFile hcrash hstable _ (h suffix hsuffix)

theorem keeps_removeSidecars (h : ∀ suffix ∈ sidecars, names (artifactPath name suffix)) :
    Keeps crash P (removeSidecars name) :=
  keeps_forEach fun suffix hsuffix ↦ keeps_removeFile hcrash hstable _ (h suffix hsuffix)

theorem keeps_createEmptyArtifact (h : names name) : Keeps crash P (createEmptyArtifact name) :=
  .bind (keeps_act hcrash fun _ disk hP ↦ hstable disk _ (agreeOff_put h) hP)
    fun _ ↦ keeps_touch hcrash _ _

theorem keeps_rename (hold : names old) (hnew : names new) : Keeps crash P (rename old new) := by
  refine keeps_act hcrash fun _ disk hP ↦ ?_
  cases hfile : disk.get old with
  | none => exact hP
  | some file => exact hstable disk _ (agreeOff_move hold hnew hfile) hP

end

def Drained (name : String) (disk : Disk L) : Prop := ∀ file, disk.get name = some file → file.len = 0

theorem triple_checkDrained (hcrash : ∀ disk, P disk → crash disk) (raise text name : String) :
    Triple crash P (checkDrained raise text name) (fun _ disk ↦ P disk ∧ Drained name disk)
      fun _ ↦ P := by
  refine triple_act (fun _ disk hP ↦ ⟨hcrash disk hP, hP⟩) fun _ disk hP ↦ ?_
  cases hfile : disk.get name with
  | none => exact ⟨hcrash disk hP, hP, fun file h ↦ by rw [hfile] at h; cases h⟩
  | some file =>
    dsimp only
    split
    · exact ⟨hcrash disk hP, hP⟩
    · rename_i hlen
      refine ⟨hcrash disk hP, hP, fun file' h ↦ ?_⟩
      obtain rfl := Option.some.inj (hfile.symm.trans h)
      omega

theorem triple_checkAll {as : List String} (hcrash : ∀ disk, P disk → crash disk)
    (raise text sidecar : String → String) :
    Triple crash P (.forEach (fun a ↦ checkDrained (raise a) (text a) (sidecar a)) as)
      (fun _ disk ↦ P disk ∧ ∀ a ∈ as, Drained (sidecar a) disk) fun _ ↦ P := by
  induction as generalizing P with
  | nil => exact .ret fun _ hP ↦ ⟨hP, fun _ h ↦ absurd h List.not_mem_nil⟩
  | cons a as ih =>
    have hrest := ih (P := fun disk ↦ P disk ∧ Drained (sidecar a) disk)
      (fun disk h ↦ hcrash disk h.1)
    refine .bind (triple_checkDrained hcrash _ _ _) fun _ ↦ hrest.mono (fun _ h ↦ h) ?_ fun _ _ h ↦ h.1
    rintro - disk ⟨⟨hP, ha⟩, hall⟩
    exact ⟨hP, fun b hb ↦ (List.mem_cons.mp hb).elim (fun h ↦ h ▸ ha) (hall b)⟩

end QueQiao.Cutover
