import QueQiao.Db.ArchiveFiles
import QueQiao.Db.RotateLocked

namespace QueQiao.Rotation

open Lib.Transition
open ArchiveScan (parseArchiveStem archiveStemForPath rsplitDot splitOnce)

def monthArchive (sealYyyymm : ℤ) : String := "record_" ++ sixDigits sealYyyymm ++ ".db"

def datedArchive (sealYyyymm : ℤ) (timestamp : ℕ) : String :=
  "record_" ++ sixDigits sealYyyymm ++ "_" ++ toString timestamp ++ ".db"

def padded (n : ℤ) : List Char :=
  List.replicate (6 - (if n < 0 then 1 else 0) - (Nat.toDigits 10 n.natAbs).length) '0' ++
    Nat.toDigits 10 n.natAbs

theorem sixDigits_toList (n : ℤ) :
    (sixDigits n).toList = (if n < 0 then ['-'] else []) ++ padded n := by
  have hdigits : n.natAbs.repr.length = (Nat.toDigits 10 n.natAbs).length := by
    rw [← String.length_toList, Nat.toList_repr]
  have hdash : "-".length = 1 := rfl
  by_cases hn : n < 0
  · simp [sixDigits, padded, hn, hdigits, hdash]
  · simp [sixDigits, padded, hn, hdigits]

theorem isDigit_of_mem_padded {n : ℤ} {c : Char} (h : c ∈ padded n) : c.isDigit = true := by
  rcases List.mem_append.mp h with h | h
  · rw [List.eq_of_mem_replicate h]
    rfl
  · exact Nat.isDigit_of_mem_toDigits (by decide) (by decide) h

theorem padded_all (n : ℤ) : (padded n).all Char.isDigit = true :=
  List.all_eq_true.mpr fun _ ↦ isDigit_of_mem_padded

theorem padded_value (n : ℤ) : Nat.ofDigitChars 10 (padded n) 0 = n.natAbs := by
  rw [padded, Nat.ofDigitChars_append, Nat.ofDigitChars_replicate_zero, Nat.mul_zero,
    Nat.ofDigitChars_ten_toDigits]

theorem sixDigits_injective : Function.Injective sixDigits := by
  intro m n h
  have hlist := congrArg String.toList h
  have hdash (n : ℤ) : '-' ∉ padded n := fun hmem ↦
    absurd (isDigit_of_mem_padded hmem) (by decide)
  rw [sixDigits_toList, sixDigits_toList] at hlist
  have hvalue (hpad : padded m = padded n) : m.natAbs = n.natAbs := by
    rw [← padded_value m, hpad, padded_value]
  by_cases hm : m < 0 <;> by_cases hn : n < 0 <;>
    simp only [hm, hn, if_true, if_false, List.singleton_append, List.nil_append] at hlist
  · have habs := hvalue (List.cons.inj hlist).2
    omega
  · exact absurd (hlist ▸ List.mem_cons_self) (hdash n)
  · exact absurd (hlist ▸ List.mem_cons_self) (hdash m)
  · have habs := hvalue hlist
    omega

theorem underscore_not_mem_sixDigits (n : ℤ) : '_' ∉ (sixDigits n).toList := by
  rw [sixDigits_toList, List.mem_append, not_or]
  refine ⟨?_, fun hmem ↦ absurd (isDigit_of_mem_padded hmem) (by decide)⟩
  split <;> decide

def scannedMonth (name : String) : Option ℕ :=
  (archiveStemForPath name).bind fun stem ↦ parseArchiveStem stem.toList

def YearMonth (yyyymm : ℤ) : Prop := 0 ≤ yyyymm ∧ yyyymm ≤ 999999 ∧ 1 ≤ yyyymm % 100 ∧ yyyymm % 100 ≤ 12

instance (yyyymm : ℤ) : Decidable (YearMonth yyyymm) :=
  inferInstanceAs (Decidable (0 ≤ yyyymm ∧ yyyymm ≤ 999999 ∧ 1 ≤ yyyymm % 100 ∧ yyyymm % 100 ≤ 12))

theorem splitOnce_of_not_mem {c : Char} {text : List Char} (h : c ∉ text) (tail : Option (List Char)) :
    splitOnce c (text ++ (tail.map (c :: ·)).getD []) = (text, tail) := by
  have hall : ∀ d ∈ text, (d ≠ c : Bool) = true :=
    fun d hd ↦ decide_eq_true fun heq ↦ h (heq ▸ hd)
  rw [splitOnce, List.dropWhile_append_of_pos hall]
  cases tail with
  | none => simp
  | some tail =>
    have htake : (text ++ c :: tail).takeWhile (· ≠ c) = text := by
      rw [List.takeWhile_append_of_pos hall]
      simp
    have hdrop : (c :: tail).dropWhile (· ≠ c) = c :: tail := by simp
    simp only [Option.map_some, Option.getD_some, hdrop, htake]

theorem parseArchiveStem_eq {month : List Char} (hmonth : '_' ∉ month) {tail : Option (List Char)}
    (htail : ∀ t ∈ tail, t ≠ [] ∧ t.all Char.isDigit = true) :
    parseArchiveStem ("record_".toList ++ (month ++ (tail.map ('_' :: ·)).getD [])) =
      if month.length = 6 ∧ month.all Char.isDigit = true ∧ 1 ≤ Nat.ofDigitChars 10 month 0 % 100 ∧
        Nat.ofDigitChars 10 month 0 % 100 ≤ 12 then some (Nat.ofDigitChars 10 month 0) else none := by
  have hstart : "record_".toList.isPrefixOf
      ("record_".toList ++ (month ++ (tail.map ('_' :: ·)).getD [])) = true :=
    List.isPrefixOf_iff_prefix.mpr (List.prefix_append _ _)
  have hdrop : ("record_".toList ++ (month ++ (tail.map ('_' :: ·)).getD [])).drop 7 =
      month ++ (tail.map ('_' :: ·)).getD [] := List.drop_left' rfl
  have hsuffix : tail.any (fun t ↦ t.isEmpty || !t.all Char.isDigit) = false := by
    cases tail with
    | none => rfl
    | some t =>
      obtain ⟨hne, hall⟩ := htail t rfl
      simp [hne, hall]
  rw [parseArchiveStem, if_pos hstart, hdrop, splitOnce_of_not_mem hmonth]
  simp only [hsuffix]
  by_cases hlength : month.length = 6 <;> by_cases hall : month.all Char.isDigit = true <;>
    simp [hlength, hall]

theorem rsplitDot_append {stem : List Char} (hne : stem ≠ []) {extension : List Char}
    (hdot : '.' ∉ extension) : rsplitDot (stem ++ '.' :: extension) = some (stem, extension) := by
  have hall : ∀ d ∈ extension.reverse, (d ≠ '.' : Bool) = true :=
    fun d hd ↦ decide_eq_true fun heq ↦ hdot (heq ▸ List.mem_reverse.mp hd)
  have hreverse : (stem ++ '.' :: extension).reverse = extension.reverse ++ '.' :: stem.reverse := by
    rw [List.reverse_append, List.reverse_cons, List.append_assoc, List.singleton_append]
  have hdrop : (extension.reverse ++ '.' :: stem.reverse).dropWhile (· ≠ '.') = '.' :: stem.reverse := by
    rw [List.dropWhile_append_of_pos hall]
    simp
  have htake : (extension.reverse ++ '.' :: stem.reverse).takeWhile (· ≠ '.') = extension.reverse := by
    rw [List.takeWhile_append_of_pos hall]
    simp
  obtain ⟨c, rest, hrest⟩ := List.exists_cons_of_ne_nil (mt List.reverse_eq_nil_iff.mp hne)
  rw [rsplitDot, hreverse, hdrop, htake, hrest, List.reverse_reverse]
  change some ((c :: rest).reverse, extension) = some (stem, extension)
  rw [← hrest, List.reverse_reverse]

def timestampTail : Option ℕ → Option (List Char) := Option.map (Nat.toDigits 10)

def archiveStem (yyyymm : ℤ) (timestamp : Option ℕ) : List Char :=
  "record_".toList ++
    ((sixDigits yyyymm).toList ++ ((timestampTail timestamp).map ('_' :: ·)).getD [])

theorem archiveStem_eq (yyyymm : ℤ) (timestamp : Option ℕ) : archiveStem yyyymm timestamp =
    "record_".toList ++
      ((sixDigits yyyymm).toList ++ ((timestampTail timestamp).map ('_' :: ·)).getD []) := rfl

theorem monthArchive_toList (yyyymm : ℤ) :
    (monthArchive yyyymm).toList = archiveStem yyyymm none ++ '.' :: "db".toList := by
  simp [monthArchive, archiveStem_eq, timestampTail]

theorem datedArchive_toList (yyyymm : ℤ) (timestamp : ℕ) :
    (datedArchive yyyymm timestamp).toList =
      archiveStem yyyymm (some timestamp) ++ '.' :: "db".toList := by
  simp [datedArchive, archiveStem_eq, timestampTail]

theorem archiveStem_inj {m n : ℤ} {i j : Option ℕ} (h : archiveStem m i = archiveStem n j) :
    m = n ∧ i = j := by
  rw [archiveStem_eq, archiveStem_eq, List.append_right_inj] at h
  have hsplit := congrArg (splitOnce '_') h
  rw [splitOnce_of_not_mem (underscore_not_mem_sixDigits m),
    splitOnce_of_not_mem (underscore_not_mem_sixDigits n), Prod.mk.injEq] at hsplit
  refine ⟨sixDigits_injective (String.toList_inj.mp hsplit.1), ?_⟩
  refine Option.map_injective (fun a b hab ↦ ?_) hsplit.2
  have hvalue := congrArg (fun digits ↦ Nat.ofDigitChars 10 digits 0) hab
  simpa only [Nat.ofDigitChars_ten_toDigits] using hvalue

theorem scannedMonth_eq {name : String} {yyyymm : ℤ} {timestamp : Option ℕ}
    (hname : name.toList = archiveStem yyyymm timestamp ++ '.' :: "db".toList) :
    scannedMonth name = parseArchiveStem (archiveStem yyyymm timestamp) := by
  have hne : archiveStem yyyymm timestamp ≠ [] := by
    have hrecord : "record_".toList ≠ [] := by decide
    rw [archiveStem_eq]
    exact List.append_ne_nil_of_left_ne_nil hrecord _
  rw [scannedMonth, archiveStemForPath, hname, rsplitDot_append hne (by decide)]
  cases hparse : parseArchiveStem (archiveStem yyyymm timestamp) with
  | none => simp [hparse]
  | some month => simp [hparse]

theorem timestampTail_digits {timestamp : Option ℕ} :
    ∀ tail ∈ timestampTail timestamp, tail ≠ [] ∧ tail.all Char.isDigit = true := by
  intro tail htail
  obtain ⟨n, -, rfl⟩ := Option.map_eq_some_iff.mp htail
  exact ⟨Nat.toDigits_ne_nil, List.all_eq_true.mpr fun c hc ↦
    Nat.isDigit_of_mem_toDigits (by decide) (by decide) hc⟩

theorem sixDigits_digits_iff (yyyymm : ℤ) :
    (sixDigits yyyymm).toList.length = 6 ∧ (sixDigits yyyymm).toList.all Char.isDigit = true ↔
      0 ≤ yyyymm ∧ yyyymm ≤ 999999 := by
  rw [sixDigits_toList]
  by_cases hneg : yyyymm < 0
  · have hdash : '-'.isDigit = false := by decide
    simp [hneg, hdash]
  · have hlength := @Nat.length_toDigits_le_iff 10 yyyymm.natAbs 6 (by decide) (by decide)
    rw [if_neg hneg, List.nil_append, padded_all, padded, if_neg hneg, List.length_append,
      List.length_replicate]
    constructor
    · intro ⟨hsix, _⟩
      have hlt := hlength.mp (by omega)
      omega
    · intro ⟨hnonneg, hle⟩
      have hsix := hlength.mpr (by omega)
      exact ⟨by omega, rfl⟩

theorem sixDigits_value {yyyymm : ℤ} (h : 0 ≤ yyyymm) :
    Nat.ofDigitChars 10 (sixDigits yyyymm).toList 0 = yyyymm.toNat := by
  rw [sixDigits_toList, if_neg (by omega), List.nil_append, padded_value]
  omega

/-- The scan reads the month of an archive from its name just when it has four digits for the
year. -/
theorem scannedMonth_iff {name : String} {yyyymm : ℤ} {timestamp : Option ℕ}
    (hname : name.toList = archiveStem yyyymm timestamp ++ '.' :: "db".toList) :
    (scannedMonth name).map Int.ofNat = some yyyymm ↔ YearMonth yyyymm := by
  have hdigits := sixDigits_digits_iff yyyymm
  have hparse := parseArchiveStem_eq (underscore_not_mem_sixDigits yyyymm)
    (@timestampTail_digits timestamp)
  rw [← archiveStem_eq] at hparse
  rw [scannedMonth_eq hname, hparse, YearMonth]
  by_cases hsix : 0 ≤ yyyymm ∧ yyyymm ≤ 999999
  · obtain ⟨hlength, hall⟩ := hdigits.mpr hsix
    have hvalue := sixDigits_value hsix.1
    have hcast : ((yyyymm.toNat : ℕ) : ℤ) = yyyymm := Int.toNat_of_nonneg hsix.1
    rw [hvalue]
    by_cases hmonth : 1 ≤ yyyymm.toNat % 100 ∧ yyyymm.toNat % 100 ≤ 12
    · rw [if_pos ⟨hlength, hall, hmonth⟩]
      exact iff_of_true (congrArg some hcast) (by omega)
    · rw [if_neg fun h ↦ hmonth h.2.2]
      exact iff_of_false (by simp) (by omega)
  · rw [if_neg fun h ↦ hsix (hdigits.mp ⟨h.1, h.2.1⟩)]
    exact iff_of_false (by simp) fun h ↦ hsix ⟨h.1, h.2.1⟩

section Runs

variable {settings : Settings} {s t : AppState} {e : Event}

def Event.sealMonth (s : AppState) : Event → ℤ
  | .check _ dataMonth _ => dataMonth.getD 0
  | .write _ nowMonth dataMonth _ => (dataMonth.filter (· < nowMonth)).getD s.activeYyyymm

def Event.archive (s : AppState) (e : Event) : String :=
  archivePath s.files (e.sealMonth s) e.outcomes.timestamp

/-- The event gets to `rotate_locked`, which finds the database. -/
def Archives (settings : Settings) (s : AppState) (e : Event) : Prop :=
  e.rotates s = true ∧ (s.files settings.dbPath).isSome = true

/-- The name is not that of a file, and the scan of the archives reads the month from it. -/
structure GoodArchive (s : AppState) (e : Event) : Prop where
  isNew : s.files (e.archive s) = none
  month : (scannedMonth (e.archive s)).map Int.ofNat = some (e.sealMonth s)

def NameFree (s : AppState) (e : Event) : Prop :=
  s.files (monthArchive (e.sealMonth s)) = none ∨
    s.files (datedArchive (e.sealMonth s) e.outcomes.timestamp) = none

instance (settings : Settings) (s : AppState) (e : Event) : Decidable (Archives settings s e) :=
  inferInstanceAs (Decidable (e.rotates s = true ∧ (s.files settings.dbPath).isSome = true))

instance (s : AppState) (e : Event) : Decidable (NameFree s e) :=
  inferInstanceAs (Decidable (s.files (monthArchive (e.sealMonth s)) = none ∨
    s.files (datedArchive (e.sealMonth s) e.outcomes.timestamp) = none))

theorem archive_eq (s : AppState) (e : Event) :
    e.archive s = if (s.files (monthArchive (e.sealMonth s))).isNone then
      monthArchive (e.sealMonth s) else datedArchive (e.sealMonth s) e.outcomes.timestamp := rfl

theorem archive_isNew_iff : s.files (e.archive s) = none ↔ NameFree s e := by
  rw [archive_eq, NameFree]
  by_cases hmonth : s.files (monthArchive (e.sealMonth s)) = none
  · simp [hmonth]
  · simp [hmonth]

theorem archive_month_iff :
    (scannedMonth (e.archive s)).map Int.ofNat = some (e.sealMonth s) ↔
      YearMonth (e.sealMonth s) := by
  rw [archive_eq]
  split
  · exact scannedMonth_iff (monthArchive_toList _)
  · exact scannedMonth_iff (datedArchive_toList _ _)

theorem goodArchive_iff : GoodArchive s e ↔ NameFree s e ∧ YearMonth (e.sealMonth s) := by
  rw [← archive_isNew_iff, ← archive_month_iff]
  exact ⟨fun h ↦ ⟨h.isNew, h.month⟩, fun h ↦ ⟨h.1, h.2⟩⟩

theorem rotateLocked_files (outcomes : Outcomes) (month : ℤ) {name : String}
    (hname : name ≠ settings.dbPath) :
    (rotateLocked settings month outcomes s).files name = s.files name ∨
      (s.files settings.dbPath).isSome = true ∧
        name = archivePath s.files month outcomes.timestamp := by
  by_cases hthere : (s.files settings.dbPath).isNone = true
  · exact .inl (by rw [rotateLocked, if_pos hthere])
  · have hsome : (s.files settings.dbPath).isSome = true := by
      rwa [Bool.not_eq_true, Option.isNone_eq_false_iff] at hthere
    by_cases harchive : name = archivePath s.files month outcomes.timestamp
    · exact .inr ⟨hsome, harchive⟩
    · left
      obtain ⟨timestamp, sealOk, renameOk, initDb, resumeOk, nowMonth⟩ := outcomes
      cases sealOk with
      | false => simp [rotateLocked, hthere]
      | true =>
        cases renameOk with
        | false => simp [rotateLocked, hthere]
        | true =>
          cases initDb with
          | ok => cases resumeOk <;> simp_all [rotateLocked, rename]
          | failed fileCreated => cases fileCreated <;> simp_all [rotateLocked, rename]

theorem step_files (hs : step settings s e = some t) {name : String}
    (hname : name ≠ settings.dbPath) :
    t.files name = s.files name ∨ Archives settings s e ∧ name = e.archive s := by
  cases e with
  | check nowMonth dataMonth outcomes =>
    obtain rfl := Option.some.inj hs
    cases dataMonth with
    | none => exact .inl rfl
    | some dataMonth =>
      rw [checkAndRotate]
      split_ifs with hlt
      · rcases @rotateLocked_files settings s outcomes dataMonth name hname with hkept | ⟨hthere, hnew⟩
        · exact .inl hkept
        · exact .inr ⟨⟨decide_eq_true hlt, hthere⟩, hnew⟩
      · exact .inl rfl
      · exact .inl rfl
  | write timeMs nowMonth dataMonth outcomes =>
    obtain rfl := Option.some.inj hs
    by_cases hlt : timeMs < s.nextMonthBoundaryMs
    · exact .inl (by rw [rotateIfNeeded.eq_def, if_pos hlt])
    · have hrotates : (Event.write timeMs nowMonth dataMonth outcomes).rotates s = true :=
        decide_eq_true (Int.not_lt.mp hlt)
      have hrun : rotateIfNeeded settings timeMs nowMonth dataMonth outcomes s =
          rotateLocked settings ((Event.write timeMs nowMonth dataMonth outcomes).sealMonth s)
            outcomes s := by
        rw [rotateIfNeeded.eq_def, if_neg hlt]
        cases dataMonth with
        | none => rfl
        | some month => by_cases hmonth : month < nowMonth <;> simp [Event.sealMonth, Option.filter, hmonth]
      rw [hrun]
      rcases @rotateLocked_files settings s outcomes
        ((Event.write timeMs nowMonth dataMonth outcomes).sealMonth s) name hname with
          hkept | ⟨hthere, hnew⟩
      · exact .inl hkept
      · exact .inr ⟨⟨hrotates, hthere⟩, hnew⟩

theorem archive_origin {tr : List (AppState × Event)} (h : Path (step settings) s tr t)
    {name : String} (hname : name ≠ settings.dbPath) (hthere : t.files name ≠ none) :
    s.files name ≠ none ∨
      ∃ p ∈ tr, Archives settings p.1 p.2 ∧ name = p.2.archive p.1 := by
  induction h with
  | nil => exact .inl hthere
  | @snoc tr r t e hp hs ih =>
    rcases step_files hs hname with hkept | ⟨harchives, hnew⟩
    · rcases ih (hkept ▸ hthere) with hstart | ⟨p, hp, hmade⟩
      · exact .inl hstart
      · exact .inr ⟨p, List.mem_append_left _ hp, hmade⟩
    · exact .inr ⟨(r, e), List.mem_append_right _ List.mem_cons_self, harchives, hnew⟩

theorem archives_kept {tr : List (AppState × Event)} (h : Path (step settings) s tr t)
    (hnew : ∀ p ∈ tr, Archives settings p.1 p.2 → NameFree p.1 p.2) {name : String}
    (hname : name ≠ settings.dbPath) {file : ℕ} (hfile : s.files name = some file) :
    t.files name = some file := by
  refine h.invariant (P := fun s ↦ s.files name = some file)
    (fun s e ↦ Archives settings s e → NameFree s e) hnew hfile ?_
  intro s e t hfile hfree hs
  rcases step_files hs hname with hkept | ⟨harchives, rfl⟩
  · rwa [hkept]
  · have hnone := archive_isNew_iff.mpr (hfree harchives)
    rw [hfile] at hnone
    cases hnone

/-- No two rotations of a run make an archive of the same month in the same second. -/
def DistinctSeconds (settings : Settings) (tr : List (AppState × Event)) : Prop :=
  tr.Pairwise fun p q ↦ Archives settings p.1 p.2 → Archives settings q.1 q.2 →
    p.2.sealMonth p.1 = q.2.sealMonth q.1 → p.2.outcomes.timestamp ≠ q.2.outcomes.timestamp

theorem datedArchive_ne_monthArchive {m n : ℤ} {timestamp : ℕ} :
    datedArchive m timestamp ≠ monthArchive n := by
  intro h
  have hlist := congrArg String.toList h
  rw [monthArchive_toList, datedArchive_toList] at hlist
  cases (archiveStem_inj (List.append_cancel_right hlist)).2

theorem datedArchive_inj {m n : ℤ} {i j : ℕ} (h : datedArchive m i = datedArchive n j) :
    m = n ∧ i = j := by
  have hlist := congrArg String.toList h
  rw [datedArchive_toList, datedArchive_toList] at hlist
  exact (archiveStem_inj (List.append_cancel_right hlist)).imp_right Option.some.inj

theorem nameFree_of_distinctSeconds {tr : List (AppState × Event)}
    (h : Path (step settings) s tr t) (hdb : s.files settings.dbPath ≠ none)
    (hdistinct : DistinctSeconds settings tr)
    (hstart : ∀ p ∈ tr, Archives settings p.1 p.2 →
      s.files (datedArchive (p.2.sealMonth p.1) p.2.outcomes.timestamp) = none) :
    ∀ p ∈ tr, Archives settings p.1 p.2 → NameFree p.1 p.2 := by
  induction h with
  | nil => exact fun p hp ↦ absurd hp List.not_mem_nil
  | @snoc tr r t e hp hs ih =>
    obtain ⟨hbefore, -, hlast⟩ := List.pairwise_append.mp hdistinct
    have hrest := ih hbefore fun p hp ↦ hstart p (List.mem_append_left _ hp)
    intro p hmem
    rcases List.mem_append.mp hmem with hmem | hmem
    · exact hrest p hmem
    · obtain rfl := List.mem_singleton.mp hmem
      intro harchives
      have hnone := hstart (r, e) (List.mem_append_right _ List.mem_cons_self) harchives
      have hname : datedArchive (e.sealMonth r) e.outcomes.timestamp ≠ settings.dbPath :=
        fun heq ↦ hdb (heq ▸ hnone)
      right
      by_contra hthere
      rcases archive_origin hp hname hthere with hthere | ⟨q, hq, hmade, heq⟩
      · exact hthere hnone
      · rw [archive_eq] at heq
        split at heq
        · exact datedArchive_ne_monthArchive heq
        · obtain ⟨hmonth, hsecond⟩ := datedArchive_inj heq
          exact hlast q hq (r, e) List.mem_cons_self hmade harchives hmonth.symm hsecond.symm

/-- The archives of a run have new names, which the scan reads, just when every month that is
archived has four digits for the year and the name with the second is free where the plain one is
taken. It is while no month is archived twice in one second, and then no archive is lost. -/
theorem goodArchives_iff {files : Directory} {created db : ℕ} {activeYyyymm boundary : ℤ}
    (hdb : files settings.dbPath = some db) {tr : List (AppState × Event)}
    (h : Path (step settings) (.start files created db activeYyyymm boundary) tr t) :
    ((∀ p ∈ tr, Archives settings p.1 p.2 → GoodArchive p.1 p.2) ↔
      ∀ p ∈ tr, Archives settings p.1 p.2 → NameFree p.1 p.2 ∧ YearMonth (p.2.sealMonth p.1)) ∧
    (DistinctSeconds settings tr →
      (∀ p ∈ tr, Archives settings p.1 p.2 →
        files (datedArchive (p.2.sealMonth p.1) p.2.outcomes.timestamp) = none) →
      ∀ p ∈ tr, Archives settings p.1 p.2 → NameFree p.1 p.2) ∧
    ((∀ p ∈ tr, Archives settings p.1 p.2 → NameFree p.1 p.2) →
      ∀ name, name ≠ settings.dbPath → ∀ file, files name = some file →
        t.files name = some file) := by
  refine ⟨?_, ?_, ?_⟩
  · exact forall_congr' fun p ↦ imp_congr_right fun _ ↦ imp_congr_right fun _ ↦ goodArchive_iff
  · intro hdistinct hstart
    refine nameFree_of_distinctSeconds h (fun hnone ↦ ?_) hdistinct hstart
    cases hdb.symm.trans hnone
  · intro hnew name hname file hfile
    exact archives_kept h hnew hname hfile

end Runs

def september (timestamp : ℕ) : Event :=
  .check 202610 (some 202609) ⟨timestamp, true, true, .ok, true, 202610⟩

def oneDatabase : AppState :=
  .start (fun name ↦ if name = "record.db" then some 0 else none) 1 0 202609 20260900

theorem goodArchives_iff_three :
    ∃ tr t, Path (step recordDb) oneDatabase tr t ∧ tr.length = 3 ∧
      ∀ p ∈ tr, Archives recordDb p.1 p.2 → GoodArchive p.1 p.2 := by
  have hrun : (trace (step recordDb) oneDatabase [september 100, september 101, september 102]).map
      (fun r ↦ (r.1.length, r.1.all fun p ↦
        decide (NameFree p.1 p.2 ∧ YearMonth (p.2.sealMonth p.1)))) = some (3, true) := by
    decide +kernel
  obtain ⟨⟨tr, t⟩, hr, hs⟩ := Option.map_eq_some_iff.mp hrun
  obtain ⟨hlength, hall⟩ := Prod.mk.inj hs
  refine ⟨tr, t, Path.of_trace hr, hlength, ?_⟩
  apply (goodArchives_iff rfl (Path.of_trace hr)).1.mpr
  intro p hp _
  exact of_decide_eq_true (List.all_eq_true.mp hall p hp)

theorem archive_overwritten :
    ∃ tr s e t, Path (step recordDb) oneDatabase tr s ∧ step recordDb s e = some t ∧
      Archives recordDb s e ∧ ¬GoodArchive s e ∧
      s.files "record_202609_100.db" = some 1 ∧ t.files "record_202609_100.db" = some 2 := by
  have hrun : (trace (step recordDb) oneDatabase [september 100, september 100]).map (fun r ↦
      (decide (Archives recordDb r.2 (september 100)), decide (NameFree r.2 (september 100)),
        r.2.files "record_202609_100.db",
        ((step recordDb r.2 (september 100)).bind fun t ↦ t.files "record_202609_100.db"))) =
      some (true, false, some 1, some 2) := by
    decide +kernel
  obtain ⟨⟨tr, s⟩, hr, hs⟩ := Option.map_eq_some_iff.mp hrun
  simp only [Prod.mk.injEq] at hs
  obtain ⟨harchives, htaken, hbefore, hafter⟩ := hs
  refine ⟨tr, s, september 100, _, Path.of_trace hr, rfl, of_decide_eq_true harchives, ?_, hbefore,
    hafter⟩
  intro hgood
  exact of_decide_eq_false htaken (archive_isNew_iff.mp hgood.isNew)

end QueQiao.Rotation
