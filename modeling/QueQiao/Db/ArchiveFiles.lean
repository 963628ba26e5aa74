import QueQiao.Db.ArchiveScan

namespace QueQiao.ArchiveScan

open Lib.CrashLogic Lib.Directory Migrate Cutover

theorem dropWhile_ne_head {c d : Char} {text rest : List Char} (h : text.dropWhile (· ≠ c) = d :: rest) :
    d = c := by
  have hhead := List.head?_dropWhile_not (· ≠ c) text
  rw [h] at hhead
  simpa using hhead

theorem splitOnce_eq (c : Char) (text : List Char) :
    text = (splitOnce c text).1 ++ ((splitOnce c text).2.map (c :: ·)).getD [] := by
  rw [splitOnce]
  have hsplit : text.takeWhile (· ≠ c) ++ text.dropWhile (· ≠ c) = text :=
    List.takeWhile_append_dropWhile
  split
  · exact (List.append_nil text).symm
  · rename_i d rest hrest
    rw [hrest, dropWhile_ne_head hrest] at hsplit
    exact hsplit.symm

theorem dot_not_mem_stem {stem : List Char} (h : (parseArchiveStem stem).isSome) : '.' ∉ stem := by
  have hdigits {text : List Char} (htext : text.all Char.isDigit = true) : '.' ∉ text := fun hmem ↦
    absurd (List.all_eq_true.mp htext '.' hmem) (by decide)
  rw [parseArchiveStem] at h
  split at h
  · rename_i hstart
    obtain ⟨rest, rfl⟩ := List.isPrefixOf_iff_prefix.mp hstart
    have hrest : ("record_".toList ++ rest).drop 7 = rest := List.drop_left' rfl
    have hsplit := splitOnce_eq '_' rest
    rw [hrest] at h
    generalize splitOnce '_' rest = parts at h hsplit
    obtain ⟨month, suffix⟩ := parts
    dsimp only at h hsplit
    split at h
    · cases h
    rename_i hmonth
    split at h
    · cases h
    rename_i hsuffix
    have hdot : '.' ∉ month := by
      rw [Bool.or_eq_true, not_or, Bool.not_eq_true, Bool.not_eq_true, Bool.not_eq_false'] at hmonth
      exact hdigits hmonth.2
    rw [hsplit, List.mem_append, List.mem_append]
    rintro (hrecord | hmem | hmem)
    · exact absurd hrecord (by decide)
    · exact hdot hmem
    · cases suffix with
      | none => cases hmem
      | some tail =>
        rcases List.mem_cons.mp hmem with hmem | hmem
        · exact absurd hmem (by decide)
        · rw [Option.any_some, Bool.or_eq_true, not_or, Bool.not_eq_true', Bool.not_eq_false] at hsuffix
          exact hdigits hsuffix.2 hmem
  · cases h

theorem rsplitDot_eq {name before extension : List Char} (h : rsplitDot name = some (before, extension)) :
    name = before ++ '.' :: extension := by
  have hsplit : name.reverse.takeWhile (· ≠ '.') ++ name.reverse.dropWhile (· ≠ '.') = name.reverse :=
    List.takeWhile_append_dropWhile
  rw [rsplitDot] at h
  split at h
  · rename_i d c rest hrest
    obtain ⟨rfl, rfl⟩ := Prod.mk.inj (Option.some.inj h)
    rw [hrest, dropWhile_ne_head hrest] at hsplit
    have hname := congrArg List.reverse hsplit
    rw [List.reverse_append, List.reverse_reverse, List.reverse_cons, List.append_assoc] at hname
    exact hname.symm
  · cases h

theorem archiveStemForPath_eq {name stem : String} (h : archiveStemForPath name = some stem) :
    name = archivePath stem ∧ '.' ∉ stem.toList := by
  rw [archiveStemForPath] at h
  split at h
  · rename_i before extension hdot
    split at h
    · rename_i hextension
      obtain ⟨month, hmonth, rfl⟩ := Option.map_eq_some_iff.mp h
      rw [String.toList_ofList]
      refine ⟨String.toList_inj.mp ?_, dot_not_mem_stem (Option.isSome_of_eq_some hmonth)⟩
      rw [rsplitDot_eq hdot, hextension, archivePath, String.toList_append,
        @String.toList_ofList before]
      rfl
    · cases h
  · cases h

theorem archives_disjoint {stem other : String} (hstem : '.' ∉ stem.toList) (hother : '.' ∉ other.toList)
    (hne : stem ≠ other) (s t : String) :
    artifactPath (archivePath stem) s ≠ artifactPath (archivePath other) t := by
  have hbefore {stem : String} (hdot : '.' ∉ stem.toList) (s : String) :
      (artifactPath (archivePath stem) s).toList.takeWhile (· ≠ '.') = stem.toList := by
    have hkeep : ∀ c ∈ stem.toList, (c ≠ '.' : Bool) = true :=
      fun c hc ↦ decide_eq_true fun heq ↦ hdot (heq ▸ hc)
    rw [artifactPath, archivePath, String.append_assoc, String.toList_append,
      List.takeWhile_append_of_pos hkeep, String.toList_append]
    exact List.append_nil _
  intro h
  refine hne (String.toList_inj.mp ?_)
  rw [← hbefore hstem s, h, hbefore hother t]

theorem sidecar_start {suffix : String} (h : suffix ∈ sidecars) (rest : List Char) :
    ¬".bak".toList <+: suffix.toList ++ rest := by
  intro hstart
  have hlength : ".bak".toList.length ≤ suffix.toList.length :=
    (by decide : ∀ s ∈ sidecars, ".bak".toList.length ≤ s.toList.length) suffix h
  have hprefix := List.prefix_of_prefix_length_le hstart (List.prefix_append suffix.toList rest) hlength
  exact (by decide : ∀ s ∈ sidecars, ¬".bak".toList <+: s.toList) suffix h hprefix

theorem backupName_sidecar_ne {path suffix : String} (h : suffix ∈ sidecars) (n m : ℕ) :
    backupName path n ≠ backupName (artifactPath path suffix) m := by
  obtain ⟨rest, hrest⟩ := backupName_eq (artifactPath path suffix) m
  have hne : backupName path n ++ "" ≠ path ++ (suffix ++ (".bak" ++ rest)) := by
    refine backupName_ne ?_ ""
    rw [String.toList_append]
    exact sidecar_start h _
  rw [hrest, artifactPath, String.append_assoc]
  rwa [String.append_empty] at hne

theorem triple_quarantineDatabase {L : Type} {path : String} {file : File L} (d : Disk L)
    (hfile : d.get path = some file) :
    Triple (fun _ ↦ True) (· = d) (quarantineDatabase path)
      (fun backup disk ↦ d.get backup = none ∧ disk.get backup = some file) fun _ _ ↦ True := by
  refine .look_bind fun d' hd' ↦ ?_
  subst hd'
  have hfree : d'.get (uniqueBackupPath d'.files path) = none := by
    have hname := get_uniqueBackupPath d' path (s := "") (by decide)
    rwa [String.append_empty] at hname
  have hrename : Triple (fun _ ↦ True) (· = d') (rename path (uniqueBackupPath d'.files path))
      (fun _ disk ↦ disk.get (uniqueBackupPath d'.files path) = some file) fun _ _ ↦ True := by
    refine triple_act (fun _ _ _ ↦ ⟨trivial, trivial⟩) fun _ disk h ↦ ⟨trivial, ?_⟩
    subst h
    rw [hfile]
    exact (Disk.get_move hfile _).trans (if_pos rfl)
  have hsidecar (suffix : String) (hsuffix : suffix ∈ sidecars) : Keeps (fun _ ↦ True)
      (fun disk : Disk L ↦ disk.get (uniqueBackupPath d'.files path) = some file) (do
        let sidecar := artifactPath path suffix
        let disk ← .look
        if (disk.get sidecar).isSome then rename sidecar (uniqueBackupPath disk.files sidecar)) := by
    refine .look_bind fun d hd ↦ ?_
    split
    · have hstable : Stable (fun name ↦ name = artifactPath path suffix ∨
          name = uniqueBackupPath d.files (artifactPath path suffix)) fun disk : Disk L ↦
          disk.get (uniqueBackupPath d'.files path) = some file :=
        stable_get (not_or.mpr ⟨backupName_ne_sidecar hsuffix, backupName_sidecar_ne hsuffix _ _⟩) _
      exact (keeps_rename (fun _ _ ↦ trivial) hstable (.inl rfl) (.inr rfl)).pre_mono fun _ h ↦ h ▸ hd
    · exact .ret fun _ h ↦ h ▸ hd
  have hsuffixes : ∀ suffix ∈ ["-journal", "-wal", "-shm"], suffix ∈ sidecars := by decide
  refine .bind hrename fun _ ↦ .bind (Triple.raised_mono
    (keeps_forEach fun suffix hsuffix ↦ hsidecar suffix (hsuffixes suffix hsuffix))
    fun _ _ _ ↦ trivial) fun _ ↦ .ret fun _ h ↦ ⟨hfree, h⟩

end QueQiao.ArchiveScan
