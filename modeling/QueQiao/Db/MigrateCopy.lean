import QueQiao.Db.Payload
import QueQiao.Lib.Keyset

namespace QueQiao.Migrate

open Audit Lib.Keyset Lib.Transition

/-- What a column holds; a real number is kept by its bits. -/
inductive Value
  | null
  | integer (value : ℤ)
  | real (bits : UInt64)
  | text (value : String)
  | blob (value : Bytes)
  deriving DecidableEq

/-- A row of `records` or `payloads`, under its `id` or `record_id`. -/
structure SourceRow where
  id : ℤ
  column : String → Value

def optText : Value → Option Value
  | .null => some .null
  | .text value => some (.text value)
  | _ => none

def optInt : Value → Option Value
  | .null => some .null
  | .integer value => some (.integer value)
  | _ => none

def optReal : Value → Option Value
  | .null => some .null
  | .real bits => some (.real bits)
  | _ => none

def flag : Value → Option Value
  | .null => some (.integer 0)
  | .integer value => some (.integer value)
  | _ => none

def optBlob : Value → Option Value
  | .null => some .null
  | .blob value => some (.blob value)
  | .text value => some (.blob (asBytes value))
  | _ => none

def recordColumns : List (String × (Value → Option Value)) :=
  [("Time", optText), ("TimeMs", optInt), ("IP", optText), ("Method", optText),
    ("Endpoint", optText), ("Type", optText), ("Model", optText), ("Backend", optText),
    ("SessionId", optText), ("ParentSessionId", optText), ("RequestId", optText),
    ("SessionAffinity", optText), ("UserAgent", optText), ("ClientName", optText),
    ("ClientVersion", optText), ("ApiKey", optText), ("Status", optInt), ("Error", optText),
    ("RetryCount", optInt), ("FinishReason", optText), ("LatencyMs", optReal),
    ("TtftMs", optReal), ("UpstreamMs", optReal), ("StreamMs", optReal),
    ("CompletionTokens", optInt), ("PromptTokens", optInt), ("TotalTokens", optInt),
    ("Tool", flag), ("Multimodal", flag), ("RequestBytes", optInt), ("ResponseBytes", optInt),
    ("PromptBytes", optInt), ("RequestTailBytes", optInt), ("AnswerBytes", optInt),
    ("MessageCount", optInt), ("SystemCount", optInt), ("ToolCount", optInt),
    ("AssistantCount", optInt), ("ToolResultCount", optInt), ("ImageCount", optInt),
    ("Prompt", optText), ("RequestTail", optText), ("Answer", optText), ("ToolNames", optText)]

def payloadColumns : List (String × (Value → Option Value)) :=
  [("codec", optText), ("dict_id", optText), ("request", optBlob), ("response", optBlob),
    ("headers", optBlob), ("request_raw_len", optInt), ("response_raw_len", optInt),
    ("headers_raw_len", optInt)]

def textOrEmpty : Value → Option String
  | .null => some ""
  | .text value => some value
  | _ => none

def searchText (row : SourceRow) : Option String := do
  let prompt ← textOrEmpty (row.column "Prompt")
  let requestTail ← textOrEmpty (row.column "RequestTail")
  let answer ← textOrEmpty (row.column "Answer")
  return prompt ++ "\n" ++ requestTail ++ "\n" ++ answer

def recordParams (row : SourceRow) : Option (List Value) := do
  let columns ← recordColumns.mapM fun column ↦ column.2 (row.column column.1)
  let search ← searchText row
  return .integer row.id :: columns ++ [.text search]

def payloadParams (row : SourceRow) : Option (List Value) := do
  let columns ← payloadColumns.mapM fun column ↦ column.2 (row.column column.1)
  return .integer row.id :: columns

structure Source where
  records : List SourceRow
  payloads : List SourceRow
  ascending_records : Ascending SourceRow.id records
  ascending_payloads : Ascending SourceRow.id payloads

structure Target where
  records : Table (List Value)
  payloads : Table (List Value)

def targetMaxId (target : Target) : Option ℤ := (target.records.rows.map Prod.fst).max?

def keyed (params : SourceRow → Option (List Value)) (rows : List SourceRow) :
    Option (List (ℤ × List Value)) :=
  rows.mapM fun row ↦ (params row).map fun values ↦ (row.id, values)

/-- `parse_args` makes a batch size of 0 one of 1. -/
structure MigrateOptions where
  batch : ℕ
  limit : ℤ
  resume : Bool
  positive : 0 < batch

structure Run where
  options : MigrateOptions
  lastId : Option ℤ
  migrated : ℤ

/-- A run that left its loop is closing, until the steps behind the loop are done; it knows
whether it stopped at its limit. -/
inductive Phase
  | idle
  | copying (run : Run)
  | closing (limited : Bool)
  | ended (limited : Bool)

structure Copy where
  target : Target
  phase : Phase

def start : Copy := ⟨⟨.empty, .empty⟩, .idle⟩

inductive Event
  | start (options : MigrateOptions)
  | batch (committed : Bool)
  | interrupt
  | close (ok : Bool)

section

variable (source : Source)

/-- `options.batch as i64`: a negative `LIMIT` is none. -/
def rowLimit (options : MigrateOptions) : ℕ :=
  if options.batch ≤ 9223372036854775807 then options.batch else source.records.length

def nextRows (run : Run) : List SourceRow :=
  batch SourceRow.id (rowLimit source run.options) run.lastId source.records

def insertBatch (target : Target) (run : Run) (maxId : ℤ) : Option Target := do
  let newRecords ← keyed recordParams (nextRows source run)
  let records ← target.records.insertAll newRecords
  let newPayloads ← keyed payloadParams (window SourceRow.id run.lastId maxId source.payloads)
  let payloads ← target.payloads.insertAll newPayloads
  return ⟨records, payloads⟩

def advance (run : Run) (maxId : ℤ) : Run :=
  { run with lastId := some maxId, migrated := run.migrated + (nextRows source run).length }

/-- One round of the loop; what is not committed is rolled back and ends the run. -/
def copyBatch (target : Target) (run : Run) (committed : Bool) : Copy :=
  match (nextRows source run).getLast? with
  | none => ⟨target, .closing false⟩
  | some row =>
    match (if committed then insertBatch source target run row.id else none) with
    | none => ⟨target, .idle⟩
    | some target' =>
      let run' := advance source run row.id
      ⟨target', if run'.options.limit ≤ run'.migrated then .closing true else .copying run'⟩

def firstRun (target : Target) (options : MigrateOptions) : Run :=
  ⟨options, if options.resume then targetMaxId target else none, 0⟩

def step (s : Copy) : Event → Option Copy
  | .start options =>
    match s.phase with
    | .idle | .ended _ => some { s with phase := .copying (firstRun s.target options) }
    | _ => none
  | .batch committed =>
    match s.phase with
    | .copying run => some (copyBatch source s.target run committed)
    | _ => none
  | .interrupt => some { s with phase := .idle }
  | .close ok =>
    match s.phase with
    | .closing limited => some { s with phase := if ok then .ended limited else .idle }
    | _ => none

structure Copied (target : Target) : Prop where
  records : keyed recordParams (upTo SourceRow.id (targetMaxId target) source.records) =
    some target.records.rows
  payloads : keyed payloadParams (upTo SourceRow.id (targetMaxId target) source.payloads) =
    some target.payloads.rows

def PhaseInv (s : Copy) : Prop :=
  match s.phase with
  | .copying run => run.lastId = none ∨ run.lastId = targetMaxId s.target
  | .closing false | .ended false => after SourceRow.id (targetMaxId s.target) source.records = []
  | _ => True

variable {source} {params : SourceRow → Option (List Value)}

theorem keyed_append {rows rows' : List SourceRow} {new new' : List (ℤ × List Value)}
    (h : keyed params rows = some new) (h' : keyed params rows' = some new') :
    keyed params (rows ++ rows') = some (new ++ new') := by
  rw [keyed] at h h' ⊢
  rw [List.mapM_append, h, h']
  rfl

theorem ids_of_keyed {rows : List SourceRow} {new : List (ℤ × List Value)}
    (h : keyed params rows = some new) : new.map Prod.fst = rows.map SourceRow.id := by
  induction rows generalizing new with
  | nil =>
    cases h
    rfl
  | cons row rows ih =>
    rw [keyed, List.mapM_cons] at h
    obtain ⟨first, hfirst, h⟩ := Option.bind_eq_some_iff.mp h
    obtain ⟨rest, hrest, h⟩ := Option.bind_eq_some_iff.mp h
    obtain ⟨values, -, rfl⟩ := Option.map_eq_some_iff.mp hfirst
    cases h
    rw [List.map_cons, List.map_cons, ih hrest]

theorem max?_keys_upTo {rows : List SourceRow} {row : SourceRow} (h : row ∈ rows) :
    ((upTo SourceRow.id (some row.id) rows).map SourceRow.id).max? = some row.id := by
  rw [List.max?_eq_some_iff]
  refine ⟨List.mem_map_of_mem (mem_upTo.mpr ⟨h, le_rfl⟩), fun id hid ↦ ?_⟩
  obtain ⟨r, hr, rfl⟩ := List.mem_map.mp hid
  exact (mem_upTo.mp hr).2

/-- The first batch of a run that does not resume has the first row of the source, whose id is
taken in a target that holds rows. -/
theorem targetMaxId_of_insert {target : Target} (hcopied : Copied source target) {n : ℕ}
    {new : List (ℤ × List Value)} {records : Table (List Value)} (hn : 0 < n)
    (hnew : keyed recordParams (batch SourceRow.id n none source.records) = some new)
    (hinsert : target.records.insertAll new = some records) : targetMaxId target = none := by
  by_contra hne
  obtain ⟨maxId, hmax⟩ := Option.ne_none_iff_exists'.mp hne
  have hids := ids_of_keyed hcopied.records
  obtain ⟨hmem, hle⟩ := List.max?_eq_some_iff.mp hmax
  rw [hids, hmax] at hmem hle
  obtain ⟨row, hrow, -⟩ := List.mem_map.mp hmem
  obtain ⟨first, rest, hsource⟩ := List.exists_cons_of_ne_nil
    (List.ne_nil_of_mem (mem_upTo.mp hrow).1)
  have hfirst : first.id ≤ maxId := by
    have hascending := source.ascending_records
    rw [hsource] at hascending
    obtain rfl | htail := List.mem_cons.mp (hsource ▸ (mem_upTo.mp hrow).1)
    · exact (mem_upTo.mp hrow).2
    · exact (List.rel_of_pairwise_cons hascending htail).le.trans (mem_upTo.mp hrow).2
  have hold : first.id ∈ target.records.rows.map Prod.fst := by
    rw [hids, hmax]
    refine List.mem_map_of_mem (mem_upTo.mpr ⟨?_, hfirst⟩)
    rw [hsource]
    exact List.mem_cons_self
  have hbatch : first ∈ batch SourceRow.id n none source.records := by
    rw [batch, after_none, hsource]
    obtain ⟨m, rfl⟩ := Nat.exists_eq_add_of_lt hn
    rw [Nat.zero_add, List.take_succ_cons]
    exact List.mem_cons_self
  have hnewid : first.id ∈ new.map Prod.fst := by
    rw [ids_of_keyed hnew]
    exact List.mem_map_of_mem hbatch
  have hnodup := records.nodup
  rw [Table.rows_of_insertAll hinsert, List.map_append] at hnodup
  exact List.disjoint_of_nodup_append hnodup hold hnewid

theorem nextRows_eq_nil {run : Run} (h : nextRows source run = []) :
    after SourceRow.id run.lastId source.records = [] := by
  rw [nextRows, rowLimit] at h
  split at h
  · exact (batch_eq_nil_iff run.options.positive).mp h
  · have hlength : (after SourceRow.id run.lastId source.records).length ≤
        source.records.length := List.length_filter_le _ _
    rwa [batch, List.take_of_length_le hlength] at h

theorem copied_insertBatch {target target' : Target} {run : Run} {row : SourceRow}
    (hcopied : Copied source target)
    (hrun : run.lastId = none ∨ run.lastId = targetMaxId target)
    (hlast : (nextRows source run).getLast? = some row)
    (h : insertBatch source target run row.id = some target') :
    Copied source target' ∧ targetMaxId target' = some row.id := by
  obtain ⟨newRecords, hnewRecords, h⟩ := Option.bind_eq_some_iff.mp h
  obtain ⟨records, hrecords, h⟩ := Option.bind_eq_some_iff.mp h
  obtain ⟨newPayloads, hnewPayloads, h⟩ := Option.bind_eq_some_iff.mp h
  obtain ⟨payloads, hpayloads, h⟩ := Option.bind_eq_some_iff.mp h
  cases h
  have hcursor : run.lastId = targetMaxId target := by
    obtain hnone | hmax := hrun
    · have hpos : 0 < rowLimit source run.options := by
        refine Nat.pos_of_ne_zero fun hzero ↦ ?_
        rw [nextRows, hzero, batch, List.take_zero] at hlast
        cases hlast
      rw [nextRows, hnone] at hnewRecords
      rw [hnone, targetMaxId_of_insert hcopied hpos hnewRecords hrecords]
    · exact hmax
  obtain ⟨hupTo, -⟩ := batch_step source.ascending_records hlast
  have hrow : row ∈ source.records :=
    List.mem_of_mem_filter (List.mem_of_mem_take (List.mem_of_getLast? hlast))
  have hle : ∀ c ∈ run.lastId, c ≤ row.id := by
    intro c hc
    have hmem : row ∈ after SourceRow.id run.lastId source.records :=
      List.mem_of_mem_take (List.mem_of_getLast? hlast)
    rw [Option.mem_def.mp hc] at hmem
    exact (mem_after.mp hmem).2.le
  have hrecords' : keyed recordParams (upTo SourceRow.id (some row.id) source.records) =
      some records.rows := by
    rw [hupTo, Table.rows_of_insertAll hrecords, hcursor]
    rw [nextRows, hcursor] at hnewRecords
    exact keyed_append hcopied.records hnewRecords
  have hpayloads' : keyed payloadParams (upTo SourceRow.id (some row.id) source.payloads) =
      some payloads.rows := by
    rw [← upTo_append_window source.ascending_payloads hle, Table.rows_of_insertAll hpayloads]
    refine keyed_append ?_ hnewPayloads
    rw [hcursor]
    exact hcopied.payloads
  have hmax : targetMaxId ⟨records, payloads⟩ = some row.id := by
    rw [targetMaxId, ids_of_keyed hrecords', max?_keys_upTo hrow]
  refine ⟨⟨?_, ?_⟩, hmax⟩
  · rw [hmax]
    exact hrecords'
  · rw [hmax]
    exact hpayloads'

theorem copyBatch_inv {target : Target} {run : Run} (hcopied : Copied source target)
    (hrun : run.lastId = none ∨ run.lastId = targetMaxId target) (committed : Bool) :
    Copied source (copyBatch source target run committed).target ∧
      PhaseInv source (copyBatch source target run committed) := by
  rw [copyBatch]
  split
  · rename_i hnone
    refine ⟨hcopied, ?_⟩
    have hafter := nextRows_eq_nil (List.getLast?_eq_none_iff.mp hnone)
    obtain hcursor | hcursor := hrun
    · rw [hcursor, after_none] at hafter
      rw [PhaseInv, hafter]
      rfl
    · rwa [hcursor] at hafter
  · rename_i row hlast
    split
    · exact ⟨hcopied, trivial⟩
    · rename_i target' hinsert
      have hinsert' : insertBatch source target run row.id = some target' := by
        cases committed with
        | false => cases hinsert
        | true => exact hinsert
      obtain ⟨hcopied', hmax⟩ := copied_insertBatch hcopied hrun hlast hinsert'
      refine ⟨hcopied', ?_⟩
      rw [PhaseInv]
      dsimp only
      split_ifs
      · trivial
      · exact .inr hmax.symm

theorem step_inv {s s' : Copy} {e : Event} (hcopied : Copied source s.target)
    (hphase : PhaseInv source s) (h : step source s e = some s') :
    Copied source s'.target ∧ PhaseInv source s' := by
  obtain ⟨target, phase⟩ := s
  cases e with
  | start options =>
    have hfirst : (firstRun target options).lastId = none ∨
        (firstRun target options).lastId = targetMaxId target := by
      rw [firstRun]
      split_ifs
      · exact .inr rfl
      · exact .inl rfl
    cases phase with
    | idle =>
      cases h
      exact ⟨hcopied, hfirst⟩
    | ended limited =>
      cases h
      exact ⟨hcopied, hfirst⟩
    | copying run => cases h
    | closing limited => cases h
  | batch committed =>
    cases phase with
    | copying run =>
      cases h
      exact copyBatch_inv hcopied hphase committed
    | idle => cases h
    | closing limited => cases h
    | ended limited => cases h
  | interrupt =>
    cases h
    exact ⟨hcopied, trivial⟩
  | close ok =>
    cases phase with
    | closing limited =>
      cases h
      refine ⟨hcopied, ?_⟩
      cases ok with
      | false => trivial
      | true => cases limited <;> exact hphase
    | idle => cases h
    | copying run => cases h
    | ended limited => cases h

/-- After every step of every sequence of runs the target holds the records up to its maximum id
and the payloads up to that id; at the end of a run that was not stopped by its limit these are
all records. -/
theorem run_copy_in_order {source : Source} {tr : List (Copy × Event)} {s : Copy}
    (h : Path (step source) start tr s) :
    Copied source s.target ∧
      (s.phase = .ended false →
        keyed recordParams source.records = some s.target.records.rows ∧
          (s.target.records.rows.map Prod.fst).Nodup) := by
  have hinv : Copied source s.target ∧ PhaseInv source s := by
    refine h.invariant_all ?_ fun s e s' hs hstep ↦ step_inv hs.1 hs.2 hstep
    have hempty : targetMaxId start.target = none := rfl
    refine ⟨⟨?_, ?_⟩, trivial⟩
    · rw [hempty, upTo_none]
      rfl
    · rw [hempty, upTo_none]
      rfl
  refine ⟨hinv.1, fun hended ↦ ⟨?_, s.target.records.nodup⟩⟩
  have hphase := hinv.2
  rw [PhaseInv, hended] at hphase
  have hall := upTo_append_after source.ascending_records (targetMaxId s.target)
  rw [hphase, List.append_nil] at hall
  rw [← hall]
  exact hinv.1.records

end

def blankRow (id : ℤ) : SourceRow := ⟨id, fun _ ↦ .null⟩

def twoRows : Source where
  records := [blankRow (-1), blankRow 5]
  payloads := [blankRow (-1)]
  ascending_records := List.pairwise_pair.mpr (by decide)
  ascending_payloads := List.pairwise_singleton _ _

def oneByOne (limit : ℤ) : MigrateOptions := ⟨1, limit, true, Nat.one_pos⟩

theorem run_copy_in_order_resumed :
    ∃ tr s, Path (step twoRows) start tr s ∧ Copied twoRows s.target ∧
      keyed recordParams twoRows.records = some s.target.records.rows := by
  let events : List Event := [.start (oneByOne 100), .batch true, .interrupt,
    .start (oneByOne 100), .batch true, .batch true, .close true]
  have hrun : ∃ r, trace (step twoRows) start events = some r ∧ r.2.phase = .ended false :=
    ⟨_, rfl, rfl⟩
  obtain ⟨r, hr, hended⟩ := hrun
  have hpath := Path.of_trace hr
  exact ⟨r.1, r.2, hpath, (run_copy_in_order hpath).1, ((run_copy_in_order hpath).2 hended).1⟩

theorem limited_run_is_partial :
    ∃ tr s, Path (step twoRows) start tr s ∧ s.phase = .ended true ∧
      s.target.records.rows.map Prod.fst = [-1] ∧ twoRows.records.map SourceRow.id = [-1, 5] := by
  let events : List Event := [.start (oneByOne 1), .batch true, .close true]
  have hrun : ∃ r, trace (step twoRows) start events = some r ∧ r.2.phase = .ended true ∧
      r.2.target.records.rows.map Prod.fst = [-1] := ⟨_, rfl, rfl, rfl⟩
  obtain ⟨r, hr, hended, hids⟩ := hrun
  exact ⟨r.1, r.2, Path.of_trace hr, hended, hids, rfl⟩

end QueQiao.Migrate
