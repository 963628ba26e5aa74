import QueQiao.Handlers.LogScan
import QueQiao.Lib.Directory
import QueQiao.Lib.OrderStatistics
import QueQiao.Lib.Transition

namespace QueQiao.RollingLocal

open ErrorLogApi (Text)
open ErrorLogScan (stripPrefix stripSuffix)
open Lib.Directory Lib.OrderStatistics Lib.Transition

/-- What `chrono` makes of the format `%Y-%m-%d`. It reads more texts than it writes. -/
structure Chrono (Date : Type) where
  format : Date → Text
  parse : Text → Option Date
  parse_format : ∀ d, parse (format d) = some d

inductive Kind
  | file
  | dir
  | other
  deriving DecidableEq, Repr

structure Settings where
  filePrefix : String
  suffix : String
  maxFiles : ℕ

/-- How the calls of the file system end: the opening of the file, the listing of each entry with
its metadata, and the removal of each file. -/
structure Outcome where
  opens : Bool
  listed : String → Bool
  removes : String → Bool

section Names

variable {Date : Type} (chrono : Chrono Date) (settings : Settings)

def fileName (d : Date) : String :=
  settings.filePrefix ++ "." ++ String.ofList (chrono.format d) ++ "." ++ settings.suffix

def parseDate (name : String) : Option Date :=
  (stripPrefix (settings.filePrefix ++ ".").toList name.toList).bind fun rest ↦
    (stripSuffix ("." ++ settings.suffix).toList rest).bind chrono.parse

theorem stripPrefix_append (start rest : Text) : stripPrefix start (start ++ rest) = some rest := by
  rw [stripPrefix, if_pos (List.prefix_append start rest), List.drop_left]

theorem stripSuffix_append (rest ending : Text) :
    stripSuffix ending (rest ++ ending) = some rest := by
  rw [stripSuffix, if_pos (List.suffix_append rest ending), List.length_append,
    Nat.add_sub_cancel, List.take_left]

theorem parseDate_fileName (d : Date) :
    parseDate chrono settings (fileName chrono settings d) = some d := by
  have hname : (fileName chrono settings d).toList = (settings.filePrefix ++ ".").toList ++
      (chrono.format d ++ ("." ++ settings.suffix).toList) := by
    simp [fileName, String.toList_append]
  rw [parseDate, hname, stripPrefix_append, Option.bind_some, stripSuffix_append,
    Option.bind_some, chrono.parse_format]

theorem fileName_injective : Function.Injective (fileName chrono settings) := by
  intro d d' h
  have hparse := parseDate_fileName chrono settings d
  rw [h, parseDate_fileName] at hparse
  exact (Option.some.inj hparse).symm

end Names

section Prune

variable {Date : Type} (chrono : Chrono Date) (settings : Settings)

def parsedDates (files : Files Kind) (outcome : Outcome) : List Date :=
  files.entries.filterMap fun entry ↦
    if outcome.listed entry.1 = true ∧ entry.2 = .file then parseDate chrono settings entry.1
    else none

def removeFile (outcome : Outcome) (files : Files Kind) (name : String) : Files Kind :=
  if outcome.removes name = true ∧ files.get name ≠ some .dir then files.remove name else files

theorem get_removeFile (outcome : Outcome) (files : Files Kind) (name n : String) :
    (removeFile outcome files name).get n =
      if n = name ∧ outcome.removes n = true ∧ files.get n ≠ some .dir then none
      else files.get n := by
  rw [removeFile]
  by_cases hn : n = name
  · subst hn
    by_cases hremoves : outcome.removes n = true ∧ files.get n ≠ some .dir
    · rw [if_pos hremoves, if_pos ⟨rfl, hremoves⟩, Files.get_remove, if_pos rfl]
    · rw [if_neg hremoves, if_neg (fun h ↦ hremoves h.2)]
  · simp only [hn, false_and, if_false]
    split
    · rw [Files.get_remove, if_neg hn]
    · rfl

variable [LinearOrder Date]

def prune (files : Files Kind) (outcome : Outcome) : Files Kind :=
  let dates := parsedDates chrono settings files outcome
  if dates.length ≤ settings.maxFiles then files
  else
    let removeCount := dates.length - settings.maxFiles
    ((dates.mergeSort (· ≤ ·)).take removeCount).foldl
      (fun files d ↦ removeFile outcome files (fileName chrono settings d)) files

theorem get_removeFiles (outcome : Outcome) (files : Files Kind) (dates : List Date) (d : Date) :
    (dates.foldl (fun files d ↦ removeFile outcome files (fileName chrono settings d)) files).get
        (fileName chrono settings d) =
      if d ∈ dates ∧ outcome.removes (fileName chrono settings d) = true ∧
        files.get (fileName chrono settings d) ≠ some .dir then none
      else files.get (fileName chrono settings d) := by
  induction dates generalizing files with
  | nil => rfl
  | cons first dates ih =>
    rw [List.foldl_cons, ih]
    by_cases hd : d = first
    · subst hd
      by_cases hremoves : outcome.removes (fileName chrono settings d) = true ∧
          files.get (fileName chrono settings d) ≠ some .dir
      · have hgone : (removeFile outcome files (fileName chrono settings d)).get
            (fileName chrono settings d) = none := by
          rw [get_removeFile, if_pos ⟨rfl, hremoves⟩]
        rw [hgone, ite_self, if_pos ⟨List.mem_cons_self, hremoves⟩]
      · have hkept : (removeFile outcome files (fileName chrono settings d)).get
            (fileName chrono settings d) = files.get (fileName chrono settings d) := by
          rw [get_removeFile, if_neg fun h ↦ hremoves h.2]
        rw [hkept, if_neg fun h ↦ hremoves h.2, if_neg fun h ↦ hremoves h.2]
    · have hname : fileName chrono settings d ≠ fileName chrono settings first :=
        fun heq ↦ hd (fileName_injective chrono settings heq)
      have hkept : (removeFile outcome files (fileName chrono settings first)).get
          (fileName chrono settings d) = files.get (fileName chrono settings d) := by
        rw [get_removeFile, if_neg fun h ↦ hname h.1]
      simp only [hkept, List.mem_cons, hd, false_or]

theorem get_prune (files : Files Kind) (outcome : Outcome) (d : Date) :
    (prune chrono settings files outcome).get (fileName chrono settings d) =
      if (d ∈ parsedDates chrono settings files outcome ∧
          settings.maxFiles < (parsedDates chrono settings files outcome).countP (d ≤ ·)) ∧
        outcome.removes (fileName chrono settings d) = true ∧
        files.get (fileName chrono settings d) ≠ some .dir then none
      else files.get (fileName chrono settings d) := by
  rw [prune]
  dsimp only
  split
  · rename_i hfew
    have hcount := (parsedDates chrono settings files outcome).countP_le_length
      (p := fun x ↦ decide (d ≤ x))
    rw [if_neg]
    rintro ⟨⟨-, hmany⟩, -⟩
    omega
  · rw [get_removeFiles]
    simp only [mem_take_mergeSort_iff]

end Prune

section LogFiles

variable {Date : Type} (chrono : Chrono Date) (settings : Settings)

def logDates (files : Files Kind) : List Date :=
  files.entries.filterMap fun entry ↦
    if entry.2 = .file then
      (parseDate chrono settings entry.1).filter fun d ↦ fileName chrono settings d = entry.1
    else none

variable {chrono settings} {files : Files Kind} {d : Date}

theorem logDate_eq_some {name : String} :
    (parseDate chrono settings name).filter (fun d ↦ fileName chrono settings d = name) = some d ↔
      name = fileName chrono settings d := by
  rw [Option.filter_eq_some_iff, decide_eq_true_eq]
  constructor
  · rintro ⟨-, heq⟩
    exact heq.symm
  · rintro rfl
    exact ⟨parseDate_fileName chrono settings d, rfl⟩

theorem mem_entries_iff {name : String} {kind : Kind} :
    (⟨name, kind⟩ : Sigma fun _ : String ↦ Kind) ∈ files.entries ↔ files.get name = some kind :=
  AList.mem_lookup_iff.symm

theorem mem_logDates :
    d ∈ logDates chrono settings files ↔
      files.get (fileName chrono settings d) = some .file := by
  rw [logDates, List.mem_filterMap, ← mem_entries_iff]
  constructor
  · rintro ⟨⟨name, kind⟩, hmem, hdate⟩
    split at hdate
    · rename_i hkind
      rw [logDate_eq_some] at hdate
      subst hkind hdate
      exact hmem
    · cases hdate
  · intro hmem
    exact ⟨_, hmem, by rw [if_pos rfl, logDate_eq_some]⟩

theorem nodup_logDates : (logDates chrono settings files).Nodup := by
  have hkeys : (files.entries.map Sigma.fst).Nodup := files.nodupKeys
  rw [List.Nodup, List.pairwise_map] at hkeys
  apply List.Pairwise.filterMap _ _ hkeys
  intro entry entry' hne d hd d' hd' heq
  subst heq
  split at hd
  · split at hd'
    · rw [logDate_eq_some] at hd hd'
      exact hne (hd.trans hd'.symm)
    · cases hd'
  · cases hd

variable [LinearOrder Date]

variable (chrono settings) in
/-- Fewer log files than are to be kept are newer. -/
def Newest (files : Files Kind) (d : Date) : Prop :=
  (logDates chrono settings files).countP (d < ·) < settings.maxFiles

/-- The directory when `prune` begins, and the date whose file has been opened. -/
structure Pruning (Date : Type) where
  files : Files Kind
  date : Date
  outcome : Outcome

variable (chrono settings) in
/-- No more names than files are kept can be read as the date or a later one, unless the file of
the date cannot be listed or removed. -/
def Pruning.Spares (p : Pruning Date) (d : Date) : Prop :=
  d ∈ parsedDates chrono settings p.files p.outcome →
    p.outcome.removes (fileName chrono settings d) = true →
      (parsedDates chrono settings p.files p.outcome).countP (d ≤ ·) ≤ settings.maxFiles

theorem prune_keeps_iff {p : Pruning Date}
    (hthere : p.files.get (fileName chrono settings d) ≠ none)
    (hdir : p.files.get (fileName chrono settings d) ≠ some .dir) :
    (prune chrono settings p.files p.outcome).get (fileName chrono settings d) =
      p.files.get (fileName chrono settings d) ↔ p.Spares chrono settings d := by
  rw [get_prune]
  constructor
  · intro hkept hmem hremoves
    by_contra hmany
    rw [if_pos ⟨⟨hmem, Nat.lt_of_not_le hmany⟩, hremoves, hdir⟩] at hkept
    exact hthere hkept.symm
  · intro hspared
    rw [if_neg]
    rintro ⟨⟨hmem, hmany⟩, hremoves, -⟩
    exact Nat.not_lt_of_le (hspared hmem hremoves) hmany

theorem spares_of_exact_names {p : Pruning Date}
    (hexact : ∀ name d, p.files.get name = some .file → parseDate chrono settings name = some d →
      name = fileName chrono settings d)
    (hnewest : Newest chrono settings p.files d) : p.Spares chrono settings d := by
  have hdates : parsedDates chrono settings p.files p.outcome =
      (logDates chrono settings p.files).filter fun d ↦
        p.outcome.listed (fileName chrono settings d) := by
    rw [parsedDates, logDates, List.filter_filterMap]
    apply List.filterMap_congr
    intro entry hmem
    by_cases hkind : entry.2 = .file
    · have hget : p.files.get entry.1 = some .file := by
        rw [← hkind]
        exact mem_entries_iff.mp hmem
      cases hparse : parseDate chrono settings entry.1 with
      | none => simp
      | some d =>
        have hname := hexact entry.1 d hget hparse
        simp [hkind, ← hname, Option.filter]
    · simp [hkind]
  intro _ _
  have hfilter : (parsedDates chrono settings p.files p.outcome).countP (d ≤ ·) ≤
      (logDates chrono settings p.files).countP (d ≤ ·) := by
    rw [hdates]
    exact List.filter_sublist.countP_le
  have hsplit := countP_le_eq_countP_lt_add_count (logDates chrono settings p.files) d
  have hone := List.nodup_iff_count_le_one.mp (@nodup_logDates _ chrono settings p.files) d
  have hlt : (logDates chrono settings p.files).countP (d < ·) < settings.maxFiles := hnewest
  omega

end LogFiles

structure System (Date : Type) where
  files : Files Kind
  currentDate : Option Date

inductive Event (Date : Type)
  | withClock (date : Date) (outcome : Outcome)
  | write (date : Date) (outcome : Outcome)
  | change (files : Files Kind)

section Runs

variable {Date : Type} (chrono : Chrono Date) (settings : Settings)

def openFor (files : Files Kind) (outcome : Outcome) (date : Date) : Option (Files Kind) :=
  let name := fileName chrono settings date
  if outcome.opens = false ∨ files.get name = some .dir then none
  else some (if files.get name = none then files.put name .file else files)

def OpenThere (s : System Date) : Prop :=
  ∀ d, s.currentDate = some d → s.files.get (fileName chrono settings d) ≠ none

def pruningAt (s : System Date) (date : Date) (outcome : Outcome) : Option (Pruning Date) :=
  (openFor chrono settings s.files outcome date).map fun files ↦ ⟨files, date, outcome⟩

variable [LinearOrder Date]

def Event.pruning (s : System Date) : Event Date → Option (Pruning Date)
  | .withClock date outcome => pruningAt chrono settings s date outcome
  | .write date outcome =>
    if s.currentDate = some date then none
    else pruningAt chrono settings s date outcome
  | .change _ => none

/-- The file of a date is opened, and the directory is pruned. A failure changes nothing. -/
def rollover (s : System Date) (date : Date) (outcome : Outcome) : System Date :=
  match openFor chrono settings s.files outcome date with
  | none => s
  | some files => ⟨prune chrono settings files outcome, some date⟩

def step (s : System Date) : Event Date → Option (System Date)
  | .withClock date outcome => some (rollover chrono settings s date outcome)
  | .write date outcome =>
    match s.currentDate with
    | none => none
    | some currentDate =>
      if date ≠ currentDate then some (rollover chrono settings s date outcome) else some s
  | .change files =>
    -- no one else takes the open file away
    match s.currentDate with
    | none => some { s with files := files }
    | some d =>
      if s.files.get (fileName chrono settings d) ≠ none ∧
          files.get (fileName chrono settings d) = none then none
      else some { s with files := files }

def KeepsNewest (s : System Date) (e : Event Date) : Prop :=
  ∀ p, e.pruning chrono settings s = some p → ∀ d,
    p.files.get (fileName chrono settings d) = some .file → Newest chrono settings p.files d →
      (prune chrono settings p.files p.outcome).get (fileName chrono settings d) = some .file

def SparesOpen (s : System Date) (e : Event Date) : Prop :=
  ∀ p, e.pruning chrono settings s = some p → p.Spares chrono settings p.date

def SparesNewest (s : System Date) (e : Event Date) : Prop :=
  ∀ p, e.pruning chrono settings s = some p → ∀ d,
    p.files.get (fileName chrono settings d) = some .file → Newest chrono settings p.files d →
      p.Spares chrono settings d

variable {chrono settings} {s t : System Date} {e : Event Date} {p : Pruning Date}

theorem keepsNewest_iff : KeepsNewest chrono settings s e ↔ SparesNewest chrono settings s e := by
  have hiff : ∀ (p : Pruning Date) (d : Date),
      p.files.get (fileName chrono settings d) = some .file →
        ((prune chrono settings p.files p.outcome).get (fileName chrono settings d) = some .file ↔
          p.Spares chrono settings d) := by
    intro p d hfile
    rw [← prune_keeps_iff (by simp [hfile]) (by simp [hfile]), hfile]
  constructor
  · intro h p hp d hfile hnewest
    exact (hiff p d hfile).mp (h p hp d hfile hnewest)
  · intro h p hp d hfile hnewest
    exact (hiff p d hfile).mpr (h p hp d hfile hnewest)

theorem pruningAt_eq_some {date : Date} {outcome : Outcome}
    (h : pruningAt chrono settings s date outcome = some p) :
    rollover chrono settings s date outcome =
        ⟨prune chrono settings p.files p.outcome, some p.date⟩ ∧
      p.files.get (fileName chrono settings p.date) ≠ none ∧
      p.files.get (fileName chrono settings p.date) ≠ some .dir := by
  obtain ⟨files, hopen, rfl⟩ := Option.map_eq_some_iff.mp h
  refine ⟨by rw [rollover, hopen], ?_⟩
  simp only [openFor] at hopen
  split at hopen
  · cases hopen
  · rename_i hok
    obtain rfl := Option.some.inj hopen
    split
    · rw [Files.get_put, if_pos rfl]
      simp
    · rename_i hthere
      exact ⟨hthere, fun hdir ↦ hok (.inr hdir)⟩

theorem pruningAt_eq_none {date : Date} {outcome : Outcome}
    (h : pruningAt chrono settings s date outcome = none) :
    rollover chrono settings s date outcome = s := by
  rw [rollover, Option.map_eq_none_iff.mp h]

theorem rollover_cases (s : System Date) (date : Date) (outcome : Outcome) :
    (∃ p, pruningAt chrono settings s date outcome = some p ∧
      rollover chrono settings s date outcome =
        ⟨prune chrono settings p.files p.outcome, some p.date⟩ ∧
      p.files.get (fileName chrono settings p.date) ≠ none ∧
      p.files.get (fileName chrono settings p.date) ≠ some .dir) ∨
    (pruningAt chrono settings s date outcome = none ∧
      (OpenThere chrono settings s →
        OpenThere chrono settings (rollover chrono settings s date outcome))) := by
  cases hp : pruningAt chrono settings s date outcome with
  | none =>
    refine .inr ⟨rfl, ?_⟩
    rw [pruningAt_eq_none hp]
    exact id
  | some p => exact .inl ⟨p, rfl, pruningAt_eq_some hp⟩

theorem step_cases (h : step chrono settings s e = some t) :
    (∃ p, e.pruning chrono settings s = some p ∧
      t = ⟨prune chrono settings p.files p.outcome, some p.date⟩ ∧
      p.files.get (fileName chrono settings p.date) ≠ none ∧
      p.files.get (fileName chrono settings p.date) ≠ some .dir) ∨
    (e.pruning chrono settings s = none ∧
      (OpenThere chrono settings s → OpenThere chrono settings t)) := by
  cases e with
  | withClock date outcome =>
    obtain rfl := Option.some.inj h
    exact rollover_cases s date outcome
  | write date outcome =>
    cases hcurrent : s.currentDate with
    | none =>
      rw [step, hcurrent] at h
      cases h
    | some currentDate =>
      simp only [step, hcurrent] at h
      rw [Event.pruning, hcurrent]
      split at h
      · rename_i hne
        rw [if_neg fun heq ↦ hne (Option.some.inj heq).symm]
        obtain rfl := Option.some.inj h
        exact rollover_cases s date outcome
      · rename_i hsame
        rw [if_pos (congrArg some (not_not.mp hsame).symm)]
        obtain rfl := Option.some.inj h
        exact .inr ⟨rfl, id⟩
  | change files =>
    refine .inr ⟨rfl, ?_⟩
    intro hs d hd
    cases hcurrent : s.currentDate with
    | none =>
      rw [step, hcurrent] at h
      obtain rfl := Option.some.inj h
      cases hd
    | some currentDate =>
      simp only [step, hcurrent] at h
      split at h
      · cases h
      · rename_i hkept
        obtain rfl := Option.some.inj h
        obtain rfl := Option.some.inj hd
        exact fun hgone ↦ hkept ⟨hs _ hcurrent, hgone⟩

theorem openThere_step (hs : OpenThere chrono settings s)
    (h : step chrono settings s e = some t) :
    OpenThere chrono settings t ↔ SparesOpen chrono settings s e := by
  rcases step_cases h with ⟨p, hp, rfl, hthere, hdir⟩ | ⟨hp, hkeeps⟩
  · rw [SparesOpen, hp]
    have hiff : (prune chrono settings p.files p.outcome).get (fileName chrono settings p.date) =
        p.files.get (fileName chrono settings p.date) ↔ p.Spares chrono settings p.date :=
      prune_keeps_iff hthere hdir
    constructor
    · intro hopen q hq
      obtain rfl := Option.some.inj hq
      have hget := hopen p.date rfl
      apply hiff.mp
      rw [get_prune] at hget ⊢
      split at hget
      · exact absurd rfl hget
      · rename_i hspared
        rw [if_neg hspared]
    · intro hspares d hd
      obtain rfl := Option.some.inj hd
      rw [hiff.mpr (hspares p rfl)]
      exact hthere
  · refine iff_of_true (hkeeps hs) ?_
    intro p hsome
    rw [hp] at hsome
    cases hsome

end Runs

def dayOfOctober (d : Fin 31) : Text :=
  "2026-10-".toList ++ [Nat.digitChar ((d.val + 1) / 10), Nat.digitChar ((d.val + 1) % 10)]

/-- The days of one month, of which `chrono` reads what it writes. -/
def october : Chrono (Fin 31) where
  format := dayOfOctober
  parse text := (List.finRange 31).find? fun d ↦ dayOfOctober d = text
  parse_format := by decide +kernel

def oneFile : Settings := ⟨"info", "log", 1⟩

def allSucceed : Outcome := ⟨true, fun _ ↦ true, fun _ ↦ true⟩

def startedOnTenth : System (Fin 31) := rollover october oneFile ⟨∅, none⟩ 9 allSucceed

theorem startedOnTenth_currentDate : startedOnTenth.currentDate = some 9 := by decide +kernel

def tenthThen (date : Fin 31) : List (System (Fin 31) × Event (Fin 31)) :=
  [(⟨∅, none⟩, .withClock 9 allSucceed), (startedOnTenth, .write date allSucceed)]

theorem path_tenthThen (date : Fin 31) (hdate : date ≠ 9) :
    Path (step october oneFile) ⟨∅, none⟩ (tenthThen date)
      (rollover october oneFile startedOnTenth date allSucceed) := by
  have hstart : Path (step october oneFile) ⟨∅, none⟩ [(⟨∅, none⟩, .withClock 9 allSucceed)]
      startedOnTenth := Path.snoc .nil rfl
  apply hstart.snoc
  rw [step, startedOnTenth_currentDate]
  exact if_pos hdate

section Law

variable {Date : Type} [LinearOrder Date] {chrono : Chrono Date} {settings : Settings}
  {s : System Date}

/-- The open file stays in the directory throughout a run, and each pruning keeps the newest
`max_files` log files, exactly if each pruning finds no more than `max_files` names to be read as
the date of the open file, or of one of the newest, or as a later one. -/
theorem keeps_logs_iff {tr : List (System Date × Event Date)} {files : Files Kind}
    (h : Path (step chrono settings) ⟨files, none⟩ tr s) :
    (Always (OpenThere chrono settings) tr s ∧ ∀ p ∈ tr, KeepsNewest chrono settings p.1 p.2) ↔
      ∀ p ∈ tr, SparesOpen chrono settings p.1 p.2 ∧ SparesNewest chrono settings p.1 p.2 := by
  have hstart : OpenThere chrono settings (⟨files, none⟩ : System Date) := by
    intro d hd
    cases hd
  have hopen := h.always_iff hstart fun _ _ _ hs hstep ↦ openThere_step hs hstep
  rw [hopen]
  constructor
  · rintro ⟨hspares, hkeeps⟩ p hp
    exact ⟨hspares p hp, keepsNewest_iff.mp (hkeeps p hp)⟩
  · intro hall
    exact ⟨fun p hp ↦ (hall p hp).1, fun p hp ↦ keepsNewest_iff.mpr (hall p hp).2⟩

theorem keeps_logs_iff_forward :
    ∃ s, Path (step october oneFile) ⟨∅, none⟩ (tenthThen 10) s ∧
      ((Always (OpenThere october oneFile) (tenthThen 10) s ∧
          ∀ p ∈ tenthThen 10, KeepsNewest october oneFile p.1 p.2) ↔
        ∀ p ∈ tenthThen 10,
          SparesOpen october oneFile p.1 p.2 ∧ SparesNewest october oneFile p.1 p.2) :=
  ⟨_, path_tenthThen 10 (by decide), keeps_logs_iff (path_tenthThen 10 (by decide))⟩

theorem prunes_open_file :
    ∃ s, Path (step october oneFile) ⟨∅, none⟩ (tenthThen 8) s ∧
      ¬Always (OpenThere october oneFile) (tenthThen 8) s := by
  refine ⟨_, path_tenthThen 8 (by decide), ?_⟩
  have hpruning : ((Event.write 8 allSucceed).pruning october oneFile startedOnTenth).map
      (fun p ↦ (decide (p.date ∈ parsedDates october oneFile p.files p.outcome),
        p.outcome.removes (fileName october oneFile p.date),
        decide ((parsedDates october oneFile p.files p.outcome).countP (p.date ≤ ·) ≤ 1))) =
      some (true, true, false) := by
    decide +kernel
  obtain ⟨p, hp, hcount⟩ := Option.map_eq_some_iff.mp hpruning
  obtain ⟨hmem, hcount⟩ := Prod.mk.inj hcount
  obtain ⟨hremoves, hmany⟩ := Prod.mk.inj hcount
  intro halways
  have hopen : OpenThere october oneFile startedOnTenth :=
    halways.1 (startedOnTenth, .write 8 allSucceed) (by simp [tenthThen])
  have hstep : step october oneFile startedOnTenth (.write 8 allSucceed) =
      some (rollover october oneFile startedOnTenth 8 allSucceed) := by
    rw [step, startedOnTenth_currentDate]
    exact if_pos (by decide)
  have hspares := (openThere_step hopen hstep).mp halways.2 p hp
  exact of_decide_eq_false hmany (hspares (of_decide_eq_true hmem) hremoves)

end Law

end QueQiao.RollingLocal
