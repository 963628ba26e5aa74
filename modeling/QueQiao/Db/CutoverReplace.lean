import QueQiao.Db.CutoverSteps

namespace QueQiao.Cutover

open Lib.CrashLogic Lib.Directory Migrate

variable {L : Type} {path : String} {disk disk₀ : Disk L} {n : ℕ}

/-- The sidecars of the active path are as before, or had nothing in them. -/
structure Kept (path : String) (disk₀ disk : Disk L) : Prop where
  atPath : disk.get path = disk₀.get path
  atTarget : disk.get (targetPath path) = disk₀.get (targetPath path)
  sidecars : (∀ suffix ∈ sidecars,
      disk.get (artifactPath path suffix) = disk₀.get (artifactPath path suffix)) ∨
    ∀ suffix ∈ sidecars, Drained (artifactPath path suffix) disk₀

/-- The target is the active database, which is its own backup. -/
structure Renamed (path : String) (disk₀ disk : Disk L) : Prop where
  there : (disk₀.get (targetPath path)).isSome
  atPath : disk.get path = disk₀.get (targetPath path)
  atTarget : disk.get (targetPath path) = none
  backup : ∃ n, disk.get (backupName path n) = disk₀.get path
  drained : ∀ suffix ∈ sidecars, Drained (artifactPath path suffix) disk₀
  targetDrained : ∀ suffix ∈ dataSidecars, Drained (artifactPath (targetPath path) suffix) disk₀

def Cutting (path : String) (disk₀ disk : Disk L) : Prop :=
  Kept path disk₀ disk ∨ Renamed path disk₀ disk

/-- A sidecar is back in place, or with the backup where the log says so. -/
def Back (path : String) (n : ℕ) (disk₀ : Disk L) (failed : List String) (disk : Disk L)
    (suffix : String) : Prop :=
  disk.get (artifactPath path suffix) = disk₀.get (artifactPath path suffix) ∨
    artifactPath path suffix ∈ failed ∧
      disk.get (artifactPath (backupName path n) suffix) = disk₀.get (artifactPath path suffix)

def Restored (path : String) (disk₀ disk : Disk L) : Prop :=
  ∃ n failed, disk.log = disk₀.log ++ failed ∧ ∀ suffix ∈ sidecars, Back path n disk₀ failed disk suffix

def OfMove (path : String) (n : ℕ) (name : String) : Prop :=
  ∃ suffix ∈ sidecars, name = artifactPath path suffix ∨ name = artifactPath (backupName path n) suffix

structure Away (path : String) (n : ℕ) (disk₀ : Disk L) (suffixes failed : List String)
    (disk : Disk L) : Prop where
  log : disk.log = disk₀.log ++ failed
  away : ∀ suffix ∈ suffixes, (disk₀.get (artifactPath path suffix)).isSome ∧
    disk.get (artifactPath (backupName path n) suffix) = disk₀.get (artifactPath path suffix)
  back : ∀ suffix ∈ sidecars, suffix ∉ suffixes → Back path n disk₀ failed disk suffix

def movedPair (path : String) (n : ℕ) (suffix : String) : String × String :=
  (artifactPath path suffix, artifactPath (backupName path n) suffix)

theorem sidecar_ne_backup {suffix other : String} (h : suffix ∈ sidecars) :
    artifactPath path suffix ≠ artifactPath (backupName path n) other :=
  (backupName_ne ((by decide : ∀ s ∈ sidecars, ¬".bak".toList <+: s.toList) suffix h) other).symm

theorem artifactPath_inj {name suffix other : String} (h : artifactPath name suffix = artifactPath name other) :
    suffix = other := by
  by_contra hne
  exact append_ne hne h

theorem Away.move {suffixes : List String} {suffix : String} {file : File L}
    (h : Away path n disk₀ suffixes [] disk) (hsuffix : suffix ∈ sidecars) (hnew : suffix ∉ suffixes)
    (hfile : disk.get (artifactPath path suffix) = some file) :
    Away path n disk₀ (suffixes ++ [suffix]) []
      (disk.move (artifactPath path suffix) (artifactPath (backupName path n) suffix)) := by
  have hplace : disk₀.get (artifactPath path suffix) = some file := by
    rcases h.back suffix hsuffix hnew with heq | ⟨hmem, -⟩
    · exact heq.symm.trans hfile
    · exact absurd hmem List.not_mem_nil
  refine ⟨h.log, fun other hother ↦ ?_, fun other hother hnot ↦ .inl ?_⟩
  · rcases List.mem_append.mp hother with hold | hlast
    · have hne : other ≠ suffix := fun heq ↦ hnew (heq ▸ hold)
      obtain ⟨hsome, haway⟩ := h.away other hold
      refine ⟨hsome, ?_⟩
      rw [Disk.get_move hfile, if_neg fun heq ↦ hne (artifactPath_inj heq),
        if_neg (sidecar_ne_backup hsuffix).symm]
      exact haway
    · obtain rfl := List.mem_singleton.mp hlast
      refine ⟨hplace ▸ rfl, ?_⟩
      rw [Disk.get_move hfile, if_pos rfl, hplace]
  · have hne : other ≠ suffix := fun heq ↦
      hnot (List.mem_append_right _ (List.mem_singleton.mpr heq))
    rw [Disk.get_move hfile, if_neg (sidecar_ne_backup hother),
      if_neg fun heq ↦ hne (artifactPath_inj heq)]
    rcases h.back other hother fun hmem ↦ hnot (List.mem_append_left _ hmem) with heq | ⟨hmem, -⟩
    · exact heq
    · exact absurd hmem List.not_mem_nil

theorem Away.restore {suffixes failed : List String} {suffix : String}
    (h : Away path n disk₀ (suffix :: suffixes) failed disk) (hsub : suffix :: suffixes ⊆ sidecars)
    (hnodup : (suffix :: suffixes).Nodup) :
    Away path n disk₀ suffixes failed
      (disk.move (artifactPath (backupName path n) suffix) (artifactPath path suffix)) := by
  obtain ⟨hsome, hfile⟩ := h.away suffix List.mem_cons_self
  obtain ⟨file, hplace⟩ := Option.isSome_iff_exists.mp hsome
  have hmoved := hfile.trans hplace
  have hsuffix := hsub List.mem_cons_self
  have hnot := (List.nodup_cons.mp hnodup).1
  refine ⟨h.log, fun other hother ↦ ?_, fun other hother hrest ↦ ?_⟩
  · have hne : other ≠ suffix := fun heq ↦ hnot (heq ▸ hother)
    obtain ⟨hsome, haway⟩ := h.away other (List.mem_cons_of_mem _ hother)
    refine ⟨hsome, ?_⟩
    rw [Disk.get_move hmoved, if_neg (sidecar_ne_backup hsuffix).symm,
      if_neg fun heq ↦ hne (artifactPath_inj heq)]
    exact haway
  · by_cases heq : other = suffix
    · subst heq
      refine .inl ?_
      rw [Disk.get_move hmoved, if_pos rfl, hplace]
    · have hne : other ∉ suffix :: suffixes := fun hmem ↦
        (List.mem_cons.mp hmem).elim heq hrest
      rw [Back, Disk.get_move hmoved, Disk.get_move hmoved, if_neg fun h ↦ heq (artifactPath_inj h),
        if_neg (sidecar_ne_backup hother), if_neg (sidecar_ne_backup hsuffix).symm,
        if_neg fun h ↦ heq (artifactPath_inj h)]
      exact h.back other hother hne

theorem Away.leave {suffixes failed : List String} {suffix : String}
    (h : Away path n disk₀ (suffix :: suffixes) failed disk) :
    Away path n disk₀ suffixes (failed ++ [artifactPath path suffix])
      { disk with log := disk.log ++ [artifactPath path suffix] } := by
  refine ⟨?_, fun other hother ↦ h.away other (List.mem_cons_of_mem _ hother),
    fun other hother hrest ↦ ?_⟩
  · change disk.log ++ _ = _
    rw [h.log, List.append_assoc]
  · by_cases heq : other = suffix
    · subst heq
      exact .inr ⟨List.mem_append_right _ (List.mem_singleton_self _),
        (h.away other List.mem_cons_self).2⟩
    · rcases h.back other hother fun hmem ↦ (List.mem_cons.mp hmem).elim heq hrest with hback | hback
      · exact .inl hback
      · exact .inr ⟨List.mem_append_left _ hback.1, hback.2⟩

theorem Away.restored {failed : List String} (h : Away path n disk₀ [] failed disk) :
    Restored path disk₀ disk :=
  ⟨n, failed, h.log, fun suffix hsuffix ↦ h.back suffix hsuffix List.not_mem_nil⟩

/-- The backup is there, and neither of the two databases has moved. -/
structure Ready (path : String) (n : ℕ) (disk₀ disk : Disk L) : Prop where
  atPath : disk.get path = disk₀.get path
  atTarget : disk.get (targetPath path) = disk₀.get (targetPath path)
  backup : disk.get (backupName path n) = disk₀.get path
  drained : ∀ suffix ∈ sidecars, Drained (artifactPath path suffix) disk₀

theorem backup_ne_path (suffix : String) : artifactPath (backupName path n) suffix ≠ path := by
  have hne : backupName path n ++ suffix ≠ path ++ "" := backupName_ne (by decide) suffix
  rwa [String.append_empty] at hne

theorem backupName_ne_path : backupName path n ≠ path := by
  have hne : artifactPath (backupName path n) "" ≠ path := backup_ne_path ""
  rwa [artifactPath, String.append_empty] at hne

theorem backupName_ne_target : backupName path n ≠ targetPath path := fun h ↦
  not_staging_backupName n (h ▸ staging_targetPath)

theorem backupName_ne_sidecar {suffix : String} (h : suffix ∈ sidecars) :
    backupName path n ≠ artifactPath path suffix := by
  have hne : artifactPath path suffix ≠ artifactPath (backupName path n) "" := sidecar_ne_backup h
  rw [artifactPath, artifactPath, String.append_empty] at hne
  exact hne.symm

theorem not_ofMove_path : ¬OfMove path n path := by
  rintro ⟨suffix, hsuffix, h | h⟩
  · exact append_self_ne (sidecar_ne_empty hsuffix) h.symm
  · exact backup_ne_path suffix h.symm

theorem not_ofMove_target : ¬OfMove path n (targetPath path) := by
  rintro ⟨suffix, hsuffix, h | h⟩
  · exact not_staging_sidecar hsuffix (h ▸ staging_targetPath)
  · exact not_staging_backup suffix (h ▸ staging_targetPath)

theorem not_ofMove_backup : ¬OfMove path n (backupName path n) := by
  rintro ⟨suffix, hsuffix, h | h⟩
  · exact backupName_ne_sidecar hsuffix h
  · exact append_self_ne (sidecar_ne_empty hsuffix) h.symm

theorem stable_ready : Stable (OfMove path n) (Ready path n disk₀) := fun _ _ hagree h ↦
  ⟨(hagree.get _ not_ofMove_path).trans h.atPath, (hagree.get _ not_ofMove_target).trans h.atTarget,
    (hagree.get _ not_ofMove_backup).trans h.backup, h.drained⟩

theorem Ready.kept (h : Ready path n disk₀ disk) : Kept path disk₀ disk :=
  ⟨h.atPath, h.atTarget, .inr h.drained⟩

theorem ofMove_sidecar {suffix : String} (h : suffix ∈ sidecars) :
    OfMove path n (artifactPath path suffix) := ⟨suffix, h, .inl rfl⟩

theorem ofMove_backup {suffix : String} (h : suffix ∈ sidecars) :
    OfMove path n (artifactPath (backupName path n) suffix) := ⟨suffix, h, .inr rfl⟩

def Aside (path : String) (n : ℕ) (disk₀ : Disk L) (pairs : List (String × String)) (disk : Disk L) :
    Prop :=
  Ready path n disk₀ disk ∧ ∃ suffixes failed, pairs = suffixes.map (movedPair path n) ∧
    suffixes ⊆ sidecars ∧ suffixes.Nodup ∧ Away path n disk₀ suffixes failed disk

theorem triple_rollback {raised : DbError → Disk L → Prop} (moved : List (String × String)) :
    Triple (Cutting path disk₀) (Aside path n disk₀ moved.reverse) (rollback moved)
      (fun _ ↦ Aside path n disk₀ []) raised := by
  refine .forEach fun pair rest ↦ ?_
  have hcrash : ∀ pairs (disk : Disk L), Aside path n disk₀ pairs disk → Cutting path disk₀ disk :=
    fun _ _ h ↦ .inl h.1.kept
  have hrename : Triple (Cutting path disk₀) (Aside path n disk₀ (pair :: rest))
      (rename pair.2 pair.1) (fun _ ↦ Aside path n disk₀ rest)
      fun _ ↦ Aside path n disk₀ (pair :: rest) := by
    refine triple_act (fun _ disk h ↦ ⟨hcrash _ disk h, h⟩) fun _ disk h ↦ ?_
    obtain ⟨hready, suffixes, failed, hpairs, hsub, hnodup, haway⟩ := id h
    cases suffixes with
    | nil => cases hpairs
    | cons suffix suffixes =>
      obtain ⟨rfl, rfl⟩ := List.cons.inj hpairs
      obtain ⟨hsome, hfile⟩ := haway.away suffix List.mem_cons_self
      obtain ⟨file, hplace⟩ := Option.isSome_iff_exists.mp hsome
      have hmoved := hfile.trans hplace
      rw [movedPair]
      dsimp only
      rw [hmoved]
      dsimp only
      have hsuffix := hsub List.mem_cons_self
      have hnext : Aside path n disk₀ (suffixes.map (movedPair path n))
          (disk.move (artifactPath (backupName path n) suffix) (artifactPath path suffix)) :=
        ⟨stable_ready disk _ (agreeOff_move (ofMove_backup hsuffix) (ofMove_sidecar hsuffix) hmoved)
          hready, suffixes, failed, rfl, fun s hs ↦ hsub (List.mem_cons_of_mem _ hs),
          (List.nodup_cons.mp hnodup).2, haway.restore hsub hnodup⟩
      exact ⟨hcrash _ _ hnext, hnext⟩
  refine .bind_attempt hrename (fun _ ↦ .ret fun _ h ↦ h) fun _ ↦ .change fun disk h ↦ ?_
  obtain ⟨hready, suffixes, failed, hpairs, hsub, hnodup, haway⟩ := h
  cases suffixes with
  | nil => cases hpairs
  | cons suffix suffixes =>
    obtain ⟨rfl, rfl⟩ := List.cons.inj hpairs
    have hnext : Aside path n disk₀ (suffixes.map (movedPair path n))
        { disk with log := disk.log ++ [artifactPath path suffix] } :=
      ⟨⟨hready.atPath, hready.atTarget, hready.backup, hready.drained⟩, suffixes, _, rfl,
        fun s hs ↦ hsub (List.mem_cons_of_mem _ hs), (List.nodup_cons.mp hnodup).2, haway.leave⟩
    exact ⟨hcrash _ _ hnext, hnext⟩

/-- The state after an error before the target is renamed. -/
def Undone (path : String) (disk₀ disk : Disk L) : Prop := Kept path disk₀ disk ∧ Restored path disk₀ disk

theorem Aside.undone (h : Aside path n disk₀ [] disk) : Undone path disk₀ disk := by
  obtain ⟨hready, suffixes, failed, hpairs, -, -, haway⟩ := h
  obtain rfl : suffixes = [] := List.map_eq_nil_iff.mp hpairs.symm
  exact ⟨hready.kept, haway.restored⟩

theorem triple_rollback_fail {α : Type} {suffixes : List String} (hsub : suffixes ⊆ sidecars)
    (hnodup : suffixes.Nodup) (error : DbError) (post : α → Disk L → Prop) :
    Triple (Cutting path disk₀)
      (fun disk ↦ Ready path n disk₀ disk ∧ Away path n disk₀ suffixes [] disk)
      (do rollback (suffixes.map (movedPair path n)); .fail error) post
      fun _ ↦ Undone path disk₀ := by
  have hback : Triple (Cutting path disk₀)
      (fun disk ↦ Ready path n disk₀ disk ∧ Away path n disk₀ suffixes [] disk)
      (rollback (suffixes.map (movedPair path n))) (fun _ ↦ Aside path n disk₀ [])
      fun _ ↦ Undone path disk₀ := by
    refine (triple_rollback _).pre_mono fun disk ⟨hready, haway⟩ ↦ ?_
    refine ⟨hready, suffixes.reverse, [], ?_, fun s hs ↦ hsub (List.mem_reverse.mp hs),
      List.nodup_reverse.mpr hnodup, ?_⟩
    · rw [List.map_reverse]
    · exact ⟨haway.log, fun s hs ↦ haway.away s (List.mem_reverse.mp hs),
        fun s hs hnot ↦ haway.back s hs fun hmem ↦ hnot (List.mem_reverse.mpr hmem)⟩
  exact .bind hback fun _ ↦ .fail fun _ h ↦ h.undone

theorem triple_moveSidecars {suffixes moved : List String} (hsub : moved ++ suffixes ⊆ sidecars)
    (hnodup : (moved ++ suffixes).Nodup) :
    Triple (Cutting path disk₀)
      (fun disk ↦ Ready path n disk₀ disk ∧ Away path n disk₀ moved [] disk)
      (moveSidecars path (backupName path n) suffixes (moved.map (movedPair path n)))
      (fun pairs disk ↦ ∃ moved, pairs = moved.map (movedPair path n) ∧ moved ⊆ sidecars ∧
        moved.Nodup ∧ Ready path n disk₀ disk ∧ Away path n disk₀ moved [] disk)
      fun _ ↦ Undone path disk₀ := by
  induction suffixes generalizing moved with
  | nil =>
    rw [List.append_nil] at hsub hnodup
    exact .ret fun _ h ↦ ⟨moved, rfl, hsub, hnodup, h⟩
  | cons suffix suffixes ih =>
    have hsuffix : suffix ∈ sidecars := hsub (List.mem_append_right _ List.mem_cons_self)
    have hnew : suffix ∉ moved := fun hmem ↦
      (List.nodup_append.mp hnodup).2.2 suffix hmem suffix List.mem_cons_self rfl
    have hmoved : moved ⊆ sidecars := fun s hs ↦ hsub (List.mem_append_left _ hs)
    rw [moveSidecars]
    refine .look_bind fun d hd ↦ ?_
    split
    · have hrename : Triple (Cutting path disk₀)
          (fun disk ↦ Ready path n disk₀ disk ∧ Away path n disk₀ moved [] disk)
          (rename (artifactPath path suffix) (artifactPath (backupName path n) suffix))
          (fun _ disk ↦ Ready path n disk₀ disk ∧ Away path n disk₀ (moved ++ [suffix]) [] disk)
          fun _ disk ↦ Ready path n disk₀ disk ∧ Away path n disk₀ moved [] disk := by
        refine triple_act (fun _ disk h ↦ ⟨.inl h.1.kept, h⟩) fun _ disk h ↦ ?_
        obtain ⟨hready, haway⟩ := id h
        cases hfile : disk.get (artifactPath path suffix) with
        | none => exact ⟨.inl hready.kept, h⟩
        | some file =>
          have hnext := stable_ready disk _
            (agreeOff_move (ofMove_sidecar hsuffix) (ofMove_backup hsuffix) hfile) hready
          exact ⟨.inl hnext.kept, hnext, haway.move hsuffix hnew hfile⟩
      have hmap : moved.map (movedPair path n) ++
          [(artifactPath path suffix, artifactPath (backupName path n) suffix)] =
          (moved ++ [suffix]).map (movedPair path n) := by rw [List.map_append]; rfl
      have hassoc : moved ++ [suffix] ++ suffixes = moved ++ suffix :: suffixes := by simp
      refine .bind_attempt (hrename.pre_mono fun _ h ↦ h ▸ hd) (fun _ ↦ ?_) fun _ ↦
        triple_rollback_fail hmoved (List.nodup_append.mp hnodup).1 _ _
      dsimp only
      rw [hmap]
      exact ih (hassoc ▸ hsub) (hassoc ▸ hnodup)
    · have hsublist : (moved ++ suffixes).Sublist (moved ++ suffix :: suffixes) :=
        (List.Sublist.refl moved).append (List.sublist_cons_self suffix suffixes)
      exact (ih (fun _ hs ↦ hsub (hsublist.subset hs)) (hnodup.sublist hsublist)).pre_mono fun _ h ↦ h ▸ hd

/-- The names of the sidecars of the target, and of backups. -/
def Beside (path name : String) : Prop :=
  (∃ suffix ∈ sidecars, name = artifactPath (targetPath path) suffix) ∨ ∃ n, name = backupName path n

theorem not_beside_path : ¬Beside path path := by
  rintro (⟨suffix, -, h⟩ | ⟨n, h⟩)
  · exact not_staging_path (h ▸ staging_target suffix)
  · exact backupName_ne_path h.symm

theorem not_beside_target : ¬Beside path (targetPath path) := by
  rintro (⟨suffix, hsuffix, h⟩ | ⟨n, h⟩)
  · exact append_self_ne (sidecar_ne_empty hsuffix) h.symm
  · exact backupName_ne_target h.symm

theorem not_beside_sidecar {suffix : String} (h : suffix ∈ sidecars) :
    ¬Beside path (artifactPath path suffix) := by
  rintro (⟨other, -, heq⟩ | ⟨n, heq⟩)
  · exact not_staging_sidecar h (heq ▸ staging_target other)
  · exact backupName_ne_sidecar h heq.symm

theorem AgreeOff.kept (h : AgreeOff (Beside path) disk₀ disk) : Kept path disk₀ disk :=
  ⟨h.get _ not_beside_path, h.get _ not_beside_target,
    .inl fun _ hs ↦ h.get _ (not_beside_sidecar hs)⟩

theorem AgreeOff.undone (h : AgreeOff (Beside path) disk₀ disk) : Undone path disk₀ disk :=
  ⟨h.kept, 0, [], by rw [h.log, List.append_nil], fun _ hs ↦
    .inl (h.get _ (not_beside_sidecar hs))⟩

theorem triple_prepareTargetForCutover :
    Triple (Cutting path disk₀) (· = disk₀) (prepareTargetForCutover (targetPath path))
      (fun _ disk ↦ (∀ suffix ∈ dataSidecars, Drained (artifactPath (targetPath path) suffix) disk₀) ∧
        AgreeOff (Beside path) disk₀ disk) fun _ ↦ AgreeOff (Beside path) disk₀ := by
  have hcrash : ∀ disk : Disk L, disk = disk₀ → Cutting path disk₀ disk := fun disk h ↦
    .inl (h ▸ (AgreeOff.refl _ disk).kept)
  refine .bind ((triple_checkAll hcrash _ _ _).raised_mono fun _ disk h ↦ h ▸ .refl _ disk) fun _ ↦ ?_
  have hkeeps : Keeps (Cutting path disk₀) (fun disk ↦
      (∀ suffix ∈ dataSidecars, Drained (artifactPath (targetPath path) suffix) disk₀) ∧
        AgreeOff (Beside path) disk₀ disk) (removeSidecars (targetPath path)) :=
    keeps_removeSidecars (fun _ h ↦ .inl h.2.kept)
      (fun _ disk' hagree h ↦ ⟨h.1, h.2.trans hagree⟩) fun suffix hsuffix ↦ .inl ⟨suffix, hsuffix, rfl⟩
  refine (hkeeps.pre_mono fun disk h ↦ ?_).raised_mono fun _ _ h ↦ h.2
  exact ⟨h.1 ▸ h.2, h.1 ▸ .refl _ disk⟩

theorem ready_put {file : File L} (h : AgreeOff (Beside path) disk₀ disk)
    (hfile : disk.get path = some file)
    (hdrained : ∀ suffix ∈ sidecars, Drained (artifactPath path suffix) disk₀) :
    Ready path n disk₀ (disk.put (backupName path n) file) ∧
      Away path n disk₀ [] [] (disk.put (backupName path n) file) := by
  have hput : AgreeOff (Beside path) disk₀ (disk.put (backupName path n) file) :=
    h.trans (agreeOff_put (.inr ⟨n, rfl⟩))
  have hplace := (h.get _ not_beside_path).symm.trans hfile
  refine ⟨⟨hput.kept.atPath, hput.kept.atTarget, ?_, hdrained⟩, ?_⟩
  · rw [Disk.get_put, if_pos rfl, hplace]
  · exact ⟨by rw [hput.log, List.append_nil], fun _ hs ↦ absurd hs List.not_mem_nil,
      fun _ hs _ ↦ .inl (hput.get _ (not_beside_sidecar hs))⟩

theorem triple_createBackup (hdrained : ∀ suffix ∈ sidecars, Drained (artifactPath path suffix) disk₀) :
    Triple (Cutting path disk₀) (AgreeOff (Beside path) disk₀)
      (createBackup path (backupName path n))
      (fun _ disk ↦ Ready path n disk₀ disk ∧ Away path n disk₀ [] [] disk)
      fun _ ↦ Undone path disk₀ := by
  have hcrash : ∀ disk : Disk L, AgreeOff (Beside path) disk₀ disk → Cutting path disk₀ disk :=
    fun _ h ↦ .inl h.kept
  have hput {disk : Disk L} {file : File L} (h : AgreeOff (Beside path) disk₀ disk)
      (hfile : disk.get path = some file) :
      Cutting path disk₀ (disk.put (backupName path n) file) ∧
        Ready path n disk₀ (disk.put (backupName path n) file) ∧
        Away path n disk₀ [] [] (disk.put (backupName path n) file) :=
    have hready := ready_put h hfile hdrained
    ⟨.inl hready.1.kept, hready⟩
  have hlink : Triple (Cutting path disk₀) (AgreeOff (Beside path) disk₀)
      (link path (backupName path n))
      (fun _ disk ↦ Ready path n disk₀ disk ∧ Away path n disk₀ [] [] disk)
      fun _ ↦ AgreeOff (Beside path) disk₀ := by
    refine triple_act (fun _ disk h ↦ ⟨hcrash disk h, h⟩) fun _ disk h ↦ ?_
    cases hfile : disk.get path with
    | none => exact ⟨hcrash disk h, h⟩
    | some file =>
      dsimp only
      split
      · exact ⟨hcrash disk h, h⟩
      · exact hput h hfile
  refine .bind_attempt hlink (fun _ ↦ .ret fun _ h ↦ h) fun _ ↦ ?_
  have hunfinished : Keeps (Cutting path disk₀) (AgreeOff (Beside path) disk₀)
      (act (io "cannot create database backup: ") fun _ (disk : Disk L) ↦
        (.ok (), disk.put (backupName path n) .unfinished)) :=
    keeps_act hcrash fun _ disk h ↦ h.trans (agreeOff_put (.inr ⟨n, rfl⟩))
  refine .bind ((keeps_touch hcrash _ _).raised_mono fun _ _ h ↦ h.undone) fun _ ↦
    .bind (hunfinished.raised_mono fun _ _ h ↦ h.undone) fun _ ↦
    triple_act (fun _ disk h ↦ ⟨hcrash disk h, h.undone⟩) fun _ disk h ↦ ?_
  cases hfile : disk.get path with
  | none => exact ⟨hcrash disk h, h.undone⟩
  | some file => exact hput h hfile

theorem triple_renameTarget
    (htarget : ∀ suffix ∈ dataSidecars, Drained (artifactPath (targetPath path) suffix) disk₀)
    (suffixes : List String) :
    Triple (Cutting path disk₀)
      (fun disk ↦ Ready path n disk₀ disk ∧ Away path n disk₀ suffixes [] disk)
      (rename (targetPath path) path) (fun _ ↦ Renamed path disk₀)
      fun _ disk ↦ Ready path n disk₀ disk ∧ Away path n disk₀ suffixes [] disk := by
  refine triple_act (fun _ _ h ↦ ⟨.inl h.1.kept, h⟩) fun _ disk h ↦ ?_
  obtain ⟨hready, -⟩ := id h
  cases hfile : disk.get (targetPath path) with
  | none => exact ⟨.inl hready.kept, h⟩
  | some file =>
    have hplace := hready.atTarget.symm.trans hfile
    have hne : targetPath path ≠ path := append_self_ne (by decide)
    have hrenamed : Renamed path disk₀ (disk.move (targetPath path) path) := by
      refine ⟨hplace ▸ rfl, ?_, ?_, ⟨n, ?_⟩, hready.drained, htarget⟩
      · rw [Disk.get_move hfile, if_pos rfl, hplace]
      · rw [Disk.get_move hfile, if_neg hne, if_pos rfl]
      · rw [Disk.get_move hfile, if_neg backupName_ne_path, if_neg backupName_ne_target]
        exact hready.backup
    exact ⟨.inr hrenamed, hrenamed⟩

theorem triple_replaceActive (disk₀ : Disk L) :
    Triple (Cutting path disk₀) (· = disk₀) (replaceActive path (targetPath path))
      (fun _ ↦ Renamed path disk₀)
      fun _ disk ↦ Renamed path disk₀ disk ∨ Undone path disk₀ disk := by
  refine .bind (triple_prepareTargetForCutover.raised_mono fun _ _ h ↦ .inr h.undone) fun _ ↦
    .assuming fun htarget ↦ ?_
  have hcrash : ∀ disk : Disk L, AgreeOff (Beside path) disk₀ disk → Cutting path disk₀ disk :=
    fun _ h ↦ .inl h.kept
  have htouch (text : String) : Triple (Cutting path disk₀) (AgreeOff (Beside path) disk₀)
      (touch text (targetPath path)) (fun _ ↦ AgreeOff (Beside path) disk₀)
      fun _ disk ↦ Renamed path disk₀ disk ∨ Undone path disk₀ disk :=
    (keeps_touch hcrash text _).raised_mono fun _ _ h ↦ .inr h.undone
  refine .bind (htouch _) fun _ ↦ .bind (htouch _) fun _ ↦
    .bind ((triple_checkAll hcrash _ _ _).raised_mono fun _ _ h ↦ .inr h.undone) fun _ ↦
    .look_bind fun d hd ↦ ?_
  obtain ⟨hagree, hempty⟩ := hd
  have hdrained : ∀ suffix ∈ sidecars, Drained (artifactPath path suffix) disk₀ :=
    fun suffix hsuffix file hfile ↦
      hempty suffix hsuffix file ((hagree.get _ (not_beside_sidecar hsuffix)).trans hfile)
  have hbackup : Triple (Cutting path disk₀) (· = d) (createBackup path (uniqueBackupPath d.files path))
      (fun _ disk ↦ Ready path (backupNumber d.files path) disk₀ disk ∧
        Away path (backupNumber d.files path) disk₀ [] [] disk)
      fun _ disk ↦ Renamed path disk₀ disk ∨ Undone path disk₀ disk :=
    (triple_createBackup hdrained).mono (fun _ (h : _ = d) ↦ h ▸ hagree) (fun _ _ h ↦ h) fun _ _ ↦ .inr
  have hnothing : ([] : List String) ++ sidecars ⊆ sidecars := List.Subset.refl sidecars
  refine .bind hbackup fun _ ↦
    .bind ((triple_moveSidecars hnothing (by decide)).raised_mono fun _ _ ↦ .inr) fun moved ↦ ?_
  refine .exists_pre fun suffixes ↦ .assuming fun hmoved ↦ .assuming fun hsub ↦
    .assuming fun hnodup ↦ ?_
  refine .bind_attempt (triple_renameTarget htarget suffixes) (fun _ ↦ ?_) fun error ↦ ?_
  · exact triple_act (fun _ _ h ↦ ⟨.inr h, .inl h⟩) fun _ _ h ↦ ⟨.inr h, h⟩
  · rw [hmoved]
    exact (triple_rollback_fail hsub hnodup _ _).raised_mono fun _ _ ↦ .inr

end QueQiao.Cutover
