import QueQiao.Handlers.ErrorLog
import QueQiao.Lib.Tally

namespace QueQiao.ErrorLogScan

open ErrorLogApi Lib.Delimiters Lib.Tally

section Entries

def maxLogLines : ℕ := 200000

def maxLogFileBytes : ℕ := 32 * 1024 * 1024

structure LogErrorKey where
  kind : String
  status : Option ℤ
  model : Option Text
  backend : Option Text
  error : Option Text
  deriving DecidableEq

/-- The fields of `ListParams` that are compared with an entry. -/
structure ListParams where
  model : Option Text := none
  ip : Option Text := none
  apikey : Option Text := none
  status : Option ℤ := none
  backend : Option Text := none
  client : Option Text := none
  type : Option Text := none
  errors : Option Text := none

/-- The dates and times of `chrono` in the local zone, and `str::to_lowercase`. A date is the
number of its day. -/
structure Chrono where
  parseDateTime : String → Text → Option ℤ
  parseDate : String → Text → Option ℤ
  single : ℤ → Bool
  date : ℤ → ℤ
  format : String → ℤ → String
  lowercase : Text → Text

variable (chrono : Chrono)

def parseLogTime (s : Text) : Option ℤ := chrono.parseDateTime "%d/%b/%Y:%H:%M:%S %z" s

def bucketLabel (ms : ℤ) (interval : String) : Option String :=
  if chrono.single ms then
    some (chrono.format
      (if interval = "hour" then "%Y-%m-%d %H"
        else if interval = "month" then "%Y-%m" else "%Y-%m-%d") ms)
  else none

def isCountableLogError (status : Option ℤ) : Bool := status.isSome

def normalizeOpt (value : Option Text) : Option Text :=
  value.bind fun s ↦ if trim s = [] ∨ trim s = ['-'] then none else some (trim s)

def logTypeLabel (path : Text) : Option String :=
  match String.ofList path with
  | "/v1/chat/completions" => some "chat.completions"
  | "/v1/completions" => some "text_completion"
  | "/v1/embeddings" => some "embeddings"
  | "/v1/rerank" | "/rerank" => some "rerank"
  | "/score" => some "score"
  | "/classify" => some "classify"
  | "/v1/responses" => some "responses"
  | "/v1/messages" => some "anthropic.messages"
  | _ => none

def given (filter : Option Text) : Option Text := filter.filter (· ≠ [])

def startsWithCi (field : Option Text) (v : Text) : Bool :=
  field.any fun s ↦ chrono.lowercase v <+: chrono.lowercase s

def logEntryMatches (e : LogEntry) (p : ListParams) : Bool :=
  (given p.model).all (startsWithCi chrono e.model) &&
  (given p.ip).all (startsWithCi chrono e.ip) &&
  (given p.apikey).all (fun v ↦ e.apiKey = some v) &&
  p.status.all (fun v ↦ e.status = some v) &&
  (given p.backend).all (fun v ↦ e.backend = some v) &&
  (given p.client).all (fun v ↦
    (findSub (chrono.lowercase v) (chrono.lowercase (e.userAgent.getD []))).isSome) &&
  (given p.type).all (fun v ↦ e.path.any fun path ↦ logTypeLabel path = some (String.ofList v)) &&
  (!p.errors.any (fun v ↦ v = ['1'] || v.map Char.toLower = "true".toList) ||
    e.status.any (400 ≤ ·))

end Entries

section Loop

structure Counters where
  counts : List (LogErrorKey × ℕ) := []
  bucketCounts : List (String × ℕ) := []
  unparsed : ℕ := 0
  totalErrorEntries : ℕ := 0

def Counters.addUnparsed (s : Counters) (n : ℕ) : Counters := { s with unparsed := s.unparsed + n }

structure Query where
  fromMs : Option ℤ := none
  toMs : Option ℤ := none
  limit : ℕ := 100
  interval : String := "day"
  filters : ListParams := {}

def Query.rangeActive (q : Query) : Bool := q.fromMs.isSome || q.toMs.isSome

def Query.lo (q : Query) : ℤ := q.fromMs.getD (-0x8000000000000000)

def Query.hi (q : Query) : ℤ := q.toMs.getD 0x7fffffffffffffff

def errorKey (entry : LogEntry) : LogErrorKey where
  kind := entry.kind
  status := entry.status
  model := normalizeOpt entry.model
  backend := normalizeOpt entry.backend
  error := normalizeOpt entry.error

def isError (entry : LogEntry) : Bool :=
  entry.kind = "http_error" || entry.kind = "stream_interrupted"

variable (chrono : Chrono) (q : Query)

/-- The end of the body of the loop, which is reached by the errors that the filters let pass. -/
def countError (entry : LogEntry) (ts : Option ℤ) (s : Counters) : Counters :=
  let s := { s with counts := bump (errorKey entry) s.counts }
  if isCountableLogError entry.status then
    let s := { s with totalErrorEntries := s.totalErrorEntries + 1 }
    match ts.bind fun t ↦ bucketLabel chrono t q.interval with
    | some label => { s with bucketCounts := bump label s.bucketCounts }
    | none => s
  else s

/-- A line on which `parse_line` does not return, such as one with a backslash before a character that
is not ASCII, is left out of the model. -/
def scanLine (s : Counters) (line : Text) : Counters :=
  let entry := (parseLineCapped line).toLogEntry
  let s := if entry.kind = "unparsed" then s.addUnparsed 1 else s
  let ts := entry.time.bind (parseLogTime chrono)
  if q.rangeActive && ts.any (fun t ↦ t < q.lo || q.hi < t) then s
  else
    -- an entry whose time is not understood is kept, and counted
    let s := if q.rangeActive && ts.isNone then s.addUnparsed 1 else s
    if isError entry then
      if logEntryMatches chrono entry q.filters then countError chrono q entry ts s else s
    else s

/-- A file of the directory. It may not open, and a line may not be UTF-8. -/
structure LogFile where
  name : String
  isFile : Bool := true
  lines : Option (List (Option Text))

/-- The state of the scan, with what is counted of the lines. -/
structure Scan (σ : Type) where
  counters : σ
  totalLines : ℕ := 0
  readFiles : List String := []
  warnings : List String := []

variable {σ : Type} (step : σ → Text → σ)

/-- The lines of a file, and whether the scan of all files ends there. -/
def scanLines : List (Option Text) → ℕ → Scan σ → Scan σ × Bool
  | [], _, s | none :: _, _, s => (s, false)
  | some line :: lines, fileBytes, s =>
    let fileBytes := fileBytes + utf8Len line + 1
    let s := { s with totalLines := s.totalLines + 1 }
    if maxLogLines < s.totalLines then
      ({ s with warnings := s.warnings ++ [s!"log scan truncated at {maxLogLines} lines"] }, true)
    else if maxLogFileBytes < fileBytes then
      ({ s with warnings := s.warnings ++ ["log scan truncated by per-file byte limit"] }, false)
    else scanLines lines fileBytes { s with counters := step s.counters line }

def scanFiles : List LogFile → Scan σ → Scan σ
  | [], s => s
  | file :: files, s =>
    match file.lines with
    | none => scanFiles files s
    | some lines =>
      let scanned := scanLines step lines 0 { s with readFiles := s.readFiles ++ [file.name] }
      if scanned.2 then scanned.1 else scanFiles files scanned.1

end Loop

section Files

variable (chrono : Chrono) (q : Query)

def stripPrefix (start s : Text) : Option Text :=
  if start <+: s then some (s.drop start.length) else none

def stripSuffix (ending s : Text) : Option Text :=
  if ending <:+ s then some (s.take (s.length - ending.length)) else none

def errorLogDate (name : String) : Option ℤ :=
  (stripPrefix "error.".toList name.toList).bind fun rest ↦
    (stripSuffix ".log".toList rest).bind (chrono.parseDate "%Y-%m-%d")

def errorLogFileInRange (name : String) : Bool :=
  let localDate (ms : ℤ) := if chrono.single ms then some (chrono.date ms) else none
  (errorLogDate chrono name).all fun date ↦
    (q.fromMs.bind localDate).all (· ≤ date) && (q.toMs.bind localDate).all (date ≤ ·)

def logFiles (dir : List LogFile) : List LogFile :=
  (dir.filter fun file ↦ "error.".toList <+: file.name.toList && ".log".toList <:+ file.name.toList &&
    file.isFile && errorLogFileInRange chrono q file.name).mergeSort fun a b ↦ a.name ≤ b.name

/-- `groups` are those that are listed, `total` is the number of all. -/
structure LogScan where
  groups : List (LogErrorKey × ℕ)
  unparsed : ℕ
  totalErrorEntries : ℕ
  perBucket : List (String × ℕ)
  files : List String
  warnings : List String
  total : ℕ

/-- The loop of the scan; its counters come to the end of every line. -/
def scanLoop (dir : List LogFile) : Scan Counters :=
  scanFiles (scanLine chrono q) (logFiles chrono q dir) { counters := {} }

def groupBefore (a b : LogErrorKey × ℕ) : Bool :=
  b.2 < a.2 || (a.2 = b.2 && a.1.kind ≤ b.1.kind)

def scanErrorLogs (dir : List LogFile) : LogScan :=
  let scan := scanLoop chrono q dir
  { groups := (scan.counters.counts.mergeSort groupBefore).take q.limit
    unparsed := scan.counters.unparsed
    totalErrorEntries := scan.counters.totalErrorEntries
    perBucket := scan.counters.bucketCounts
    files := scan.readFiles
    warnings := scan.warnings
    total := scan.counters.counts.length }

end Files

section Effects

variable (chrono : Chrono) (q : Query)

def entryOf (line : Text) : LogEntry := (parseLineCapped line).toLogEntry

def timeOf (line : Text) : Option ℤ := (entryOf line).time.bind (parseLogTime chrono)

def outOfRange (line : Text) : Bool :=
  q.rangeActive && (timeOf chrono line).any fun t ↦ t < q.lo || q.hi < t

def passes (line : Text) : Bool :=
  !outOfRange chrono q line && isError (entryOf line) &&
    logEntryMatches chrono (entryOf line) q.filters

def counted (line : Text) : Bool :=
  passes chrono q line && isCountableLogError (entryOf line).status

def labelOf (line : Text) : Option String :=
  (timeOf chrono line).bind fun t ↦ bucketLabel chrono t q.interval

def unparsedOf (line : Text) : ℕ :=
  (if (entryOf line).kind = "unparsed" then 1 else 0) +
    if q.rangeActive && (timeOf chrono line).isNone then 1 else 0

def groupOf (line : Text) : Option LogErrorKey :=
  if passes chrono q line then some (errorKey (entryOf line)) else none

def bucketOf (line : Text) : Option String :=
  if counted chrono q line then labelOf chrono q line else none

theorem countError_eq (entry : LogEntry) (ts : Option ℤ) (s : Counters) :
    countError chrono q entry ts s =
      { counts := bump (errorKey entry) s.counts
        bucketCounts := (if isCountableLogError entry.status then
            ts.bind fun t ↦ bucketLabel chrono t q.interval else none).elim s.bucketCounts
              fun k ↦ bump k s.bucketCounts
        unparsed := s.unparsed
        totalErrorEntries := s.totalErrorEntries +
          if isCountableLogError entry.status then 1 else 0 } := by
  rw [countError]
  cases isCountableLogError entry.status with
  | false => rfl
  | true =>
    simp only [if_true]
    cases ts.bind fun t ↦ bucketLabel chrono t q.interval with
    | none => rfl
    | some label => rfl

theorem ite_addUnparsed (c : Prop) [Decidable c] (s : Counters) :
    (if c then s.addUnparsed 1 else s) = s.addUnparsed (if c then 1 else 0) := by
  split <;> rfl

theorem scanLine_eq (s : Counters) (line : Text) : scanLine chrono q s line =
    { counts := (groupOf chrono q line).elim s.counts fun k ↦ bump k s.counts
      bucketCounts := (bucketOf chrono q line).elim s.bucketCounts fun k ↦ bump k s.bucketCounts
      unparsed := s.unparsed + unparsedOf chrono q line
      totalErrorEntries := s.totalErrorEntries + if counted chrono q line then 1 else 0 } := by
  have hbody : scanLine chrono q s line =
      let s := if (entryOf line).kind = "unparsed" then s.addUnparsed 1 else s
      if outOfRange chrono q line then s
      else
        let s := if q.rangeActive && (timeOf chrono line).isNone then s.addUnparsed 1 else s
        if isError (entryOf line) then
          if logEntryMatches chrono (entryOf line) q.filters then
            countError chrono q (entryOf line) (timeOf chrono line) s else s
        else s := rfl
  simp only [hbody, ite_addUnparsed, countError_eq, groupOf, bucketOf, counted, passes, unparsedOf,
    labelOf]
  by_cases hout : outOfRange chrono q line = true
  · have htime : (timeOf chrono line).isNone = false := by
      rw [outOfRange, Bool.and_eq_true] at hout
      obtain ⟨t, ht, -⟩ := (Option.any_eq_true _ _).mp hout.2
      rw [ht]
      rfl
    simp [hout, htime, Counters.addUnparsed]
  · by_cases herror : isError (entryOf line) = true
    · by_cases hmatches : logEntryMatches chrono (entryOf line) q.filters = true <;>
        simp [hout, herror, hmatches, Counters.addUnparsed, Nat.add_assoc]
    · simp [hout, herror, Counters.addUnparsed, Nat.add_assoc]

end Effects

section Effects

variable {chrono : Chrono} {q : Query}

theorem setField_kind (entry : LogEntry) (field : Text × Text) :
    (setField entry field).kind = entry.kind := by
  rw [setField]
  split_ifs <;> rfl

theorem parseStreamInterrupted_kind (line time : Text) :
    (parseStreamInterrupted line time).kind = "stream_interrupted" :=
  get_foldl_setField setField_kind _ _

theorem parseInterrupted_kind {line : Text} {entry : LogEntry}
    (h : parseInterrupted line = some entry) : entry.kind = "stream_interrupted" := by
  rw [parseInterrupted.eq_def] at h
  split at h
  · obtain ⟨⟨time, rest⟩, -, h⟩ := Option.bind_eq_some_iff.mp h
    dsimp only at h
    split at h
    · rw [← Option.some.inj h]
      exact parseStreamInterrupted_kind _ _
    · cases h
  · cases h

theorem parseAccessLine_kind {line : Text} {entry : LogEntry}
    (h : parseAccessLine line = some entry) : entry.kind = "http_error" := by
  simp only [parseAccessLine, Option.bind_eq_bind, Option.bind_eq_some_iff, Option.pure_def,
    Option.some.injEq] at h
  obtain ⟨_, -, _, -, _, -, _, -, _, -, _, -, _, -, _, -, rfl⟩ := h
  rfl

theorem parseLine_time {line : Text} (h : (parseLine line).kind = "unparsed") :
    (parseLine line).time = none := by
  rw [parseLine] at h ⊢
  by_cases hnil : trimEnd line = []
  · rw [if_pos hnil]
    rfl
  · rw [if_neg hnil] at h ⊢
    cases hinterrupted : parseInterrupted (trimEnd line) with
    | some entry =>
      rw [hinterrupted, Option.getD_some, parseInterrupted_kind hinterrupted] at h
      exact absurd h (by decide)
    | none =>
      cases haccess : parseAccessLine (trimEnd line) with
      | some entry =>
        rw [hinterrupted, haccess, Option.getD_none, Option.getD_some,
          parseAccessLine_kind haccess] at h
        exact absurd h (by decide)
      | none => rfl

theorem capError_kind (entry : LogEntry) : (capError entry).kind = entry.kind := by
  rw [capError.eq_def]
  split <;> rfl

theorem capError_time (entry : LogEntry) : (capError entry).time = entry.time := by
  rw [capError.eq_def]
  split <;> rfl

end Effects

section Loop

variable {σ : Type} {step : σ → Text → σ}

def collect (lines : List Text) (line : Text) : List Text := lines ++ [line]

def Scan.count (step : σ → Text → σ) (init : σ) (s : Scan (List Text)) : Scan σ :=
  { s with counters := s.counters.foldl step init }

theorem scanLines_count (init : σ) (lines : List (Option Text)) (fileBytes : ℕ)
    (s : Scan (List Text)) : scanLines step lines fileBytes (s.count step init) =
      ((scanLines collect lines fileBytes s).1.count step init,
        (scanLines collect lines fileBytes s).2) := by
  induction lines generalizing fileBytes s with
  | nil => rfl
  | cons line lines ih =>
    cases line with
    | none => rfl
    | some line =>
      have hline : step (s.count step init).counters line =
          (collect s.counters line).foldl step init := by
        rw [collect, List.foldl_append]
        rfl
      rw [scanLines, scanLines]
      simp only [hline]
      split
      · rename_i hlines
        rw [if_pos (show maxLogLines < s.totalLines + 1 from hlines)]
        rfl
      · rename_i hlines
        rw [if_neg (show ¬ maxLogLines < s.totalLines + 1 from hlines)]
        split
        · rfl
        · exact ih _ { s with
            counters := collect s.counters line
            totalLines := s.totalLines + 1 }

theorem scanFiles_count (init : σ) (files : List LogFile) (s : Scan (List Text)) :
    scanFiles step files (s.count step init) = (scanFiles collect files s).count step init := by
  induction files generalizing s with
  | nil => rfl
  | cons file files ih =>
    rw [scanFiles, scanFiles]
    cases file.lines with
    | none => exact ih s
    | some lines =>
      have hlines : scanLines step lines 0
          { s.count step init with readFiles := (s.count step init).readFiles ++ [file.name] } = _ :=
        scanLines_count init lines 0 { s with readFiles := s.readFiles ++ [file.name] }
      simp only
      rw [hlines]
      split
      · rfl
      · exact ih _

variable (chrono : Chrono) (q : Query) (dir : List LogFile)

def scanned : List Text := (scanFiles collect (logFiles chrono q dir) { counters := [] }).counters

theorem scanLoop_counters : (scanLoop chrono q dir).counters =
    (scanned chrono q dir).foldl (scanLine chrono q) {} := by
  have hcount : scanFiles (scanLine chrono q) (logFiles chrono q dir) { counters := {} } =
      (scanFiles collect (logFiles chrono q dir) { counters := [] }).count (scanLine chrono q) {} :=
    scanFiles_count ({} : Counters) (logFiles chrono q dir) { counters := [] }
  rw [scanLoop, hcount]
  rfl

theorem sum_counts (lines : List Text) :
    sum (lines.foldl (scanLine chrono q) {}).counts = lines.countP (passes chrono q) := by
  have hcounts : (lines.foldl (scanLine chrono q) {}).counts =
      lines.foldl (fun counts line ↦ (groupOf chrono q line).elim counts fun k ↦ bump k counts) [] :=
    (List.foldl_hom Counters.counts fun s line ↦
      (congrArg Counters.counts (scanLine_eq chrono q s line)).symm).symm
  rw [hcounts, sum_foldl_bump]
  refine (Nat.zero_add _).trans (List.countP_congr fun line _ ↦ ?_)
  rw [groupOf, Option.isSome_ite]

theorem sum_bucketCounts (lines : List Text) :
    sum (lines.foldl (scanLine chrono q) {}).bucketCounts =
      lines.countP fun line ↦ counted chrono q line && (labelOf chrono q line).isSome := by
  have hcounts : (lines.foldl (scanLine chrono q) {}).bucketCounts =
      lines.foldl (fun counts line ↦ (bucketOf chrono q line).elim counts fun k ↦ bump k counts) [] :=
    (List.foldl_hom Counters.bucketCounts fun s line ↦
      (congrArg Counters.bucketCounts (scanLine_eq chrono q s line)).symm).symm
  rw [hcounts, sum_foldl_bump]
  refine (Nat.zero_add _).trans (List.countP_congr fun line _ ↦ ?_)
  rw [bucketOf, Bool.and_eq_true]
  split
  · rename_i h
    exact (and_iff_right h).symm
  · rename_i h
    exact iff_of_false Bool.false_ne_true fun h' ↦ h h'.1

theorem unparsed_foldl (lines : List Text) (s : Counters) :
    (lines.foldl (scanLine chrono q) s).unparsed =
      s.unparsed + (lines.map (unparsedOf chrono q)).sum := by
  induction lines generalizing s with
  | nil => rfl
  | cons line lines ih =>
    rw [List.foldl_cons, ih, scanLine_eq, List.map_cons, List.sum_cons, Nat.add_assoc]

theorem sum_unparsedOf_le {lines : List Text} (h : ∀ line ∈ lines, unparsedOf chrono q line ≤ 1) :
    (lines.map (unparsedOf chrono q)).sum ≤ lines.length := by
  induction lines with
  | nil => exact Nat.le_refl 0
  | cons line lines ih =>
    rw [List.map_cons, List.sum_cons, List.length_cons, Nat.add_comm]
    exact Nat.add_le_add (ih fun l hl ↦ h l (List.mem_cons_of_mem line hl)) (h line List.mem_cons_self)

theorem total_foldl (lines : List Text) (s : Counters) :
    (lines.foldl (scanLine chrono q) s).totalErrorEntries =
      s.totalErrorEntries + lines.countP (counted chrono q) := by
  induction lines generalizing s with
  | nil => rfl
  | cons line lines ih =>
    rw [List.foldl_cons, ih, scanLine_eq, List.countP_cons, Nat.add_assoc, Nat.add_comm (ite _ _ _)]

theorem sum_groups (h : (scanErrorLogs chrono q dir).total ≤ q.limit) :
    sum (scanErrorLogs chrono q dir).groups = (scanned chrono q dir).countP (passes chrono q) := by
  have hsort := List.mergeSort_perm (scanLoop chrono q dir).counters.counts groupBefore
  have hall : (scanErrorLogs chrono q dir).groups =
      (scanLoop chrono q dir).counters.counts.mergeSort groupBefore :=
    List.take_of_length_le (by rwa [List.length_mergeSort])
  rw [hall, sum, (hsort.map _).sum_eq, ← sum_counts, ← scanLoop_counters]
  rfl

structure AddsOnce (before after : Counters) : Prop where
  unparsed : after.unparsed ≤ before.unparsed + 1
  total : after.totalErrorEntries ≤ before.totalErrorEntries + 1
  group : ∃ group : Option LogErrorKey, ∀ key,
    countOf key after.counts = countOf key before.counts + if group = some key then 1 else 0
  bucket : ∃ bucket : Option String, ∀ key, countOf key after.bucketCounts =
    countOf key before.bucketCounts + if bucket = some key then 1 else 0

/-- Every line that is scanned adds at most one to each count; the buckets add up to the counted
errors whose time has a bucket, and the groups, where the limit does not cut them, to all errors
that pass. -/
structure CountsLinesOnce : Prop where
  once : ∀ before line after, scanned chrono q dir = before ++ line :: after →
    AddsOnce (before.foldl (scanLine chrono q) {}) ((before ++ [line]).foldl (scanLine chrono q) {})
  unparsed : (scanErrorLogs chrono q dir).unparsed ≤ (scanned chrono q dir).length
  total : (scanErrorLogs chrono q dir).totalErrorEntries =
    (scanned chrono q dir).countP (counted chrono q)
  buckets : sum (scanErrorLogs chrono q dir).perBucket = (scanned chrono q dir).countP
    fun line ↦ counted chrono q line && (labelOf chrono q line).isSome
  counts : sum (scanLoop chrono q dir).counters.counts =
    (scanned chrono q dir).countP (passes chrono q)
  groups : (scanErrorLogs chrono q dir).total ≤ q.limit →
    sum (scanErrorLogs chrono q dir).groups = (scanned chrono q dir).countP (passes chrono q)

theorem countOf_elim {κ : Type} [DecidableEq κ] (k : Option κ) (key : κ) (counts : List (κ × ℕ)) :
    countOf key (k.elim counts fun k ↦ bump k counts) =
      countOf key counts + if k = some key then 1 else 0 := by
  cases k with
  | none => rfl
  | some k =>
    simp only [Option.some.injEq]
    exact countOf_bump k key counts

theorem addsOnce_iff (s : Counters) (line : Text) :
    AddsOnce s (scanLine chrono q s line) ↔ unparsedOf chrono q line ≤ 1 := by
  rw [scanLine_eq]
  constructor
  · intro h
    exact Nat.le_of_add_le_add_left h.unparsed
  · intro h
    refine ⟨Nat.add_le_add_left h _, Nat.add_le_add_left ?_ _, ⟨_, fun key ↦ countOf_elim _ key _⟩,
      ⟨_, fun key ↦ countOf_elim _ key _⟩⟩
    split
    · exact le_rfl
    · exact Nat.zero_le 1

theorem unparsedOf_le_one_iff (line : Text) :
    unparsedOf chrono q line ≤ 1 ↔ q.rangeActive = false ∨ (parseLine line).kind ≠ "unparsed" := by
  have hkind : (entryOf line).kind = (parseLine line).kind := capError_kind _
  rw [unparsedOf, hkind]
  by_cases hunparsed : (parseLine line).kind = "unparsed"
  · have htime : timeOf chrono line = none := by
      rw [timeOf, entryOf, parseLineCapped, capError_time, parseLine_time hunparsed]
      rfl
    rw [htime, if_pos hunparsed]
    cases q.rangeActive <;> simp [hunparsed]
  · rw [if_neg hunparsed]
    refine iff_of_true ?_ (.inr hunparsed)
    split <;> omega

theorem countsLinesOnce_iff : CountsLinesOnce chrono q dir ↔
    q.rangeActive = false ∨ ∀ line ∈ scanned chrono q dir, (parseLine line).kind ≠ "unparsed" := by
  have honce (before : List Text) (line : Text) :
      AddsOnce (before.foldl (scanLine chrono q) {})
          ((before ++ [line]).foldl (scanLine chrono q) {}) ↔
        q.rangeActive = false ∨ (parseLine line).kind ≠ "unparsed" := by
    rw [List.foldl_append, ← unparsedOf_le_one_iff, ← addsOnce_iff]
    rfl
  have hall : (q.rangeActive = false ∨ ∀ line ∈ scanned chrono q dir,
      (parseLine line).kind ≠ "unparsed") ↔ ∀ line ∈ scanned chrono q dir,
        q.rangeActive = false ∨ (parseLine line).kind ≠ "unparsed" := by
    by_cases hrange : q.rangeActive = false <;> simp [hrange]
  rw [hall]
  constructor
  · intro h line hline
    obtain ⟨before, after, hsplit⟩ := List.append_of_mem hline
    exact (honce before line).mp (h.once before line after hsplit)
  · intro h
    refine ⟨fun before line after hsplit ↦ (honce before line).mpr (h line ?_), ?_, ?_, ?_, ?_,
      sum_groups chrono q dir⟩
    · rw [hsplit]
      exact List.mem_append_right _ List.mem_cons_self
    · rw [scanErrorLogs, scanLoop_counters, unparsed_foldl, Nat.zero_add]
      exact sum_unparsedOf_le chrono q fun line hline ↦
        (unparsedOf_le_one_iff chrono q line).mpr (h line hline)
    · rw [scanErrorLogs, scanLoop_counters, total_foldl, Nat.zero_add]
    · rw [scanErrorLogs, scanLoop_counters, sum_bucketCounts]
    · rw [scanLoop_counters, sum_counts]

def strayLine : List LogFile := [{ name := "error.2026-09-20.log", lines := some [some ['x']] }]

def utcChrono : Chrono where
  parseDateTime := fun _ _ ↦ none
  parseDate := fun _ _ ↦ some 20716
  single := fun _ ↦ true
  date := fun ms ↦ ms / 86400000
  format := fun _ _ ↦ "2026-09-20"
  lowercase := fun s ↦ s.map Char.toLower

theorem stray_line_counted_twice :
    (scanErrorLogs utcChrono { fromMs := some 0 } strayLine).unparsed = 2 ∧
      ¬ ∀ (chrono : Chrono) (q : Query) (dir : List LogFile), CountsLinesOnce chrono q dir := by
  have hfiles : logFiles utcChrono { fromMs := some 0 } strayLine = strayLine := by
    rw [logFiles, strayLine, List.filter_cons_of_pos (by decide +kernel), List.filter_nil,
      List.mergeSort_singleton]
  have hscanned : scanned utcChrono { fromMs := some 0 } strayLine = [['x']] := by
    rw [scanned, hfiles]
    decide +kernel
  have htwo : (scanLine utcChrono { fromMs := some 0 } {} ['x']).unparsed = 2 := by decide +kernel
  refine ⟨?_, fun h ↦ ?_⟩
  · rw [scanErrorLogs, scanLoop_counters, hscanned]
    exact htwo
  · have honce := ((h utcChrono { fromMs := some 0 } strayLine).once [] ['x'] [] hscanned).unparsed
    have hle : (scanLine utcChrono { fromMs := some 0 } {} ['x']).unparsed ≤ 0 + 1 := honce
    rw [htwo] at hle
    exact absurd hle (by decide)

end Loop

end QueQiao.ErrorLogScan
