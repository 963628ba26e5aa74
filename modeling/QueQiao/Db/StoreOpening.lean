import QueQiao.Db.Cutover

namespace QueQiao.TursoSchema

open Lib.CrashLogic
open Cutover (SchemaKind DbError)

inductive Object
  | table (columns : List String)
  | view (columns : List String)
  | index (table : String) (columns : List String) (fts : Bool)
  deriving DecidableEq, Repr

structure Schema where
  userVersion : ℤ := 0
  objects : List (String × Object) := []
  triggers : List String := []
  deriving DecidableEq, Repr

/-- The case of ASCII letters does not count in a name. -/
def fold (name : String) : List Char := name.toList.map Char.toLower

namespace Schema

def find (s : Schema) (name : String) : Option Object :=
  (s.objects.find? fun o ↦ fold o.1 = fold name).map Prod.snd

def tableInfo (s : Schema) (name : String) : List String :=
  match s.find name with
  | some (.table columns) | some (.view columns) => columns
  | _ => []

/-- Whether something has a name that does not begin with `sqlite_`. -/
def userObject (s : Schema) : Bool :=
  (s.objects.map Prod.fst ++ s.triggers).any fun name ↦ name.toList.take 7 ≠ "sqlite_".toList

def add (s : Schema) (name : String) (object : Object) : Schema :=
  { s with objects := s.objects ++ [(name, object)] }

end Schema

/-- A `CREATE … IF NOT EXISTS`; all indexes are on the records. -/
inductive Ddl
  | table (name : String) (columns : List String)
  | index (name : String) (columns : List String) (fts : Bool)
  deriving DecidableEq, Repr

namespace Ddl

def name : Ddl → String
  | table name _ | index name _ _ => name

def object : Ddl → Object
  | table _ columns => .table columns
  | index _ columns fts => .index "records" columns fts

def missing (existing columns : List String) : Option String :=
  columns.find? fun column ↦ !existing.any fun c ↦ fold c = fold column

def run (d : Ddl) (s : Schema) : Except DbError Schema :=
  match d with
  | table name columns =>
    match s.find name with
    | some (.index ..) => .error (.driver ("there is already an index named " ++ name))
    | some _ => .ok s
    | none => .ok (s.add name (.table columns))
  | index name columns fts =>
    match s.find "records" with
    | some (.table existing) =>
      match s.find name with
      | some (.index ..) => .ok s
      | some _ => .error (.driver ("there is already a table named " ++ name))
      | none =>
        match missing existing columns with
        | some column => .error (.driver ("no such column: " ++ column))
        | none => .ok (s.add name (.index "records" columns fts))
    | some (.view _) => .error (.driver "views may not be indexed")
    | _ => .error (.driver "no such table: main.records")

end Ddl

def schemaVersion : ℤ := 8

def recordsColumns : List String :=
  ["id", "Time", "TimeMs", "IP", "Method", "Endpoint", "Type", "Model", "Backend", "SessionId",
    "ParentSessionId", "RequestId", "SessionAffinity", "UserAgent", "ClientName", "ClientVersion",
    "ApiKey", "Status", "Error", "RetryCount", "FinishReason", "LatencyMs", "TtftMs", "UpstreamMs",
    "StreamMs", "CompletionTokens", "PromptTokens", "TotalTokens", "Tool", "Multimodal",
    "RequestBytes", "ResponseBytes", "PromptBytes", "RequestTailBytes", "AnswerBytes",
    "MessageCount", "SystemCount", "ToolCount", "AssistantCount", "ToolResultCount", "ImageCount",
    "Prompt", "RequestTail", "Answer", "ToolNames", "SearchText"]

def payloadsColumns : List String :=
  ["record_id", "codec", "dict_id", "request", "response", "headers", "request_raw_len",
    "response_raw_len", "headers_raw_len"]

def recordsDdl : Ddl := .table "records" recordsColumns
def payloadsDdl : Ddl := .table "payloads" payloadsColumns

def indexDdl : List Ddl :=
  [.index "idx_records_time" ["TimeMs"] false,
    .index "idx_records_type_time" ["Type", "TimeMs"] false,
    .index "idx_records_api_key_time" ["ApiKey", "TimeMs"] false,
    .index "idx_records_model_time" ["Model", "TimeMs"] false,
    .index "idx_records_status_time" ["Status", "TimeMs"] false,
    .index "idx_records_backend_time" ["Backend", "TimeMs"] false,
    .index "idx_records_ip_time" ["IP", "TimeMs"] false]

def ftsDdl : Ddl := .index "records_fts" ["SearchText"] true

inductive File
  | empty
  | database (schema : Schema)
  | other
  deriving DecidableEq, Repr

def schemaOf : Option File → Option Schema
  | none | some .empty => some {}
  | some (.database s) => some s
  | some .other => none

abbrev Opening (α : Type) := Prog (Option DbError) (Option File) DbError α

def notDatabase : DbError := .driver "file is not a database"

def query {α : Type} (f : Schema → α) : Opening α :=
  .step fun fault file ↦
    match fault, schemaOf file with
    | some error, _ => (.error error, file)
    | none, some s => (.ok (f s), file)
    | none, none => (.error notDatabase, file)

def execute (f : Schema → Except DbError Schema) : Opening Unit :=
  .step fun fault file ↦
    match fault, (schemaOf file).map f with
    | some error, _ => (.error error, file)
    | none, some (.ok s) => (.ok (), some (.database s))
    | none, some (.error error) => (.error error, file)
    | none, none => (.error notDatabase, file)

def probeSchema : Opening SchemaKind := do
  match ← .look with
  | none | some .empty => pure .empty
  | _ =>
    let version ← query Schema.userVersion
    if 8 < version then pure (.newer version)
    else
      let columns ← query (·.tableInfo "records")
      if columns.isEmpty then
        let userObject ← query Schema.userObject
        pure (if version = 0 ∧ userObject = false then .empty else .unknown)
      else if version = 7 then pure .v7
      else if "SearchText" ∈ columns then pure .v8
      else if version < 7 then pure .legacy
      else pure .unknown

def createFts : Opening Unit := execute ftsDdl.run

def setVersion (s : Schema) : Except DbError Schema := .ok { s with userVersion := schemaVersion }

/-- The statements of `init_v8_schema`, after its checks. -/
def statements (withFts : Bool) : Opening Unit := do
  execute recordsDdl.run
  execute payloadsDdl.run
  .forEach (fun d ↦ execute d.run) indexDdl
  (if withFts then createFts else pure ())
  execute setVersion

def initV8Schema (withFts : Bool) : Opening Unit := do
  let version ← query Schema.userVersion
  if schemaVersion < version then
    .fail (.shape ("audit database schema v" ++ toString version ++
      " is newer than this binary (v" ++ toString schemaVersion ++ ")"))
  else if 0 < version ∧ version < schemaVersion then
    .fail (.shape ("legacy audit schema v" ++ toString version ++
      " detected; run the v7 -> v8 migration instead of opening it directly"))
  else
    let existing ← query (·.tableInfo "records")
    if existing ≠ [] ∧ "Headers" ∈ existing then
      .fail (.shape "legacy v7 audit schema detected; run the v7 -> v8 migration")
    else if existing ≠ [] ∧ "SearchText" ∉ existing then
      .fail (.shape "v8 audit database is missing SearchText; rebuild it with --migrate-db")
    else statements withFts

def refusal : SchemaKind → Option DbError
  | .empty | .v8 => none
  | .legacy => some (.shape "legacy audit database; automatic startup migration is required")
  | .v7 => some (.shape "legacy v7 audit database; run --migrate-db before opening it")
  | .newer version =>
    some (.shape ("audit schema v" ++ toString version ++ " is newer than this binary"))
  | .unknown => some (.shape "unrecognized audit schema; refusing to open writable")

def openDb (readOnly : Bool) : Opening Unit :=
  .step fun fault file ↦
    match fault, file with
    | some error, _ => (.error error, file)
    | none, some .other => (.error notDatabase, file)
    | none, none =>
      if readOnly then (.error (.driver "No such file or directory"), none)
      else (.ok (), some .empty)
    | none, some _ => (.ok (), file)

def checkSchema : Opening Unit := do
  match refusal (← probeSchema) with
  | none => pure ()
  | some error => .fail error

def openWithFts (readOnly withFts : Bool) : Opening Unit := do
  let file ← .look
  (if readOnly = false ∧ file.isSome then checkSchema else pure ())
  openDb readOnly
  (if readOnly then pure () else initV8Schema withFts)

def ddl : List Ddl := recordsDdl :: payloadsDdl :: indexDdl ++ [ftsDdl]

theorem names_nodup : (ddl.map fun d ↦ fold d.name).Nodup := by decide

theorem eq_of_fold {d e : Ddl} (hd : d ∈ ddl) (he : e ∈ ddl) (h : fold d.name = fold e.name) :
    d = e :=
  List.inj_on_of_nodup_map names_nodup hd he h

variable {s t u : Schema} {d e : Ddl} {name : String} {object : Object}
  {existing columns : List String}

theorem find_add : (s.add name object).find d.name =
    (s.find d.name).or (if fold name = fold d.name then some object else none) := by
  rw [Schema.find, Schema.add, List.find?_append, Option.map_or]
  refine congrArg _ ?_
  by_cases h : fold name = fold d.name
  · rw [if_pos h, List.find?_cons_of_pos (by simpa using h)]
    rfl
  · rw [if_neg h, List.find?_cons_of_neg (by simpa using h)]
    rfl

theorem find_add_of_ne (hd : d ∈ ddl) (he : e ∈ ddl) (hne : d ≠ e) :
    (s.add d.name object).find e.name = s.find e.name := by
  rw [find_add, if_neg fun h ↦ hne (eq_of_fold hd he h), Option.or_none]

theorem find_add_self (hnone : s.find d.name = none) :
    (s.add d.name object).find d.name = some object := by
  rw [find_add, hnone, if_pos rfl, Option.none_or]

theorem find_of_not_userObject (h : s.userObject = false) (hd : d ∈ ddl) :
    s.find d.name = none := by
  rw [Schema.find, Option.map_eq_none_iff, List.find?_eq_none]
  intro o ho
  rw [decide_eq_true_eq]
  intro hname
  have hsystem : o.1.toList.take 7 = "sqlite_".toList := by
    by_contra hne
    have hany := List.any_eq_false.mp h o.1 (List.mem_append_left _ (List.mem_map_of_mem ho))
    exact hany (decide_eq_true hne)
  have hfold : (fold d.name).take 7 = "sqlite_".toList := by
    rw [← hname, fold, ← List.map_take, hsystem]
    rfl
  have hne : ∀ d ∈ ddl, (fold d.name).take 7 ≠ "sqlite_".toList := by decide
  exact hne d hd hfold

/-- A statement has nothing against it in a database, once the records are there. -/
def Takes (s : Schema) : Ddl → Prop
  | .table name _ => ∀ table columns fts, s.find name ≠ some (.index table columns fts)
  | .index name columns _ =>
    (s.find "records" = none ∨ ∃ existing, s.find "records" = some (.table existing) ∧
      (s.find name = none → Ddl.missing existing columns = none)) ∧
    ∀ object, s.find name = some object → ∃ table columns fts, object = .index table columns fts

def Has (s : Schema) (d : Ddl) : Prop := Takes s d ∧ (s.find d.name).isSome

def Ddl.isIndex : Ddl → Prop
  | .table .. => False
  | .index .. => True

theorem run_cases (h : d.run s = .ok t) :
    (d.isIndex → ∃ existing, s.find "records" = some (.table existing)) ∧
      (t = s ∧ Has s d ∨ s.find d.name = none ∧ t = s.add d.name d.object ∧ Takes s d) := by
  cases d with
  | table name columns =>
    refine ⟨False.elim, ?_⟩
    simp only [Ddl.run] at h
    split at h
    · cases h
    · rename_i object hnot hfind
      obtain rfl := Except.ok.inj h
      refine .inl ⟨rfl, fun table columns fts hindex ↦ ?_, Option.isSome_of_eq_some hfind⟩
      exact hnot table columns fts (Option.some.inj (hfind.symm.trans hindex))
    · rename_i hnone
      obtain rfl := Except.ok.inj h
      refine .inr ⟨hnone, rfl, fun table columns fts hindex ↦ ?_⟩
      rw [hnone] at hindex
      cases hindex
  | index name columns fts =>
    simp only [Ddl.run] at h
    split at h
    · rename_i existing hrecords
      refine ⟨fun _ ↦ ⟨existing, hrecords⟩, ?_⟩
      split at h
      · rename_i table columns' fts' hfind
        obtain rfl := Except.ok.inj h
        refine .inl ⟨rfl, ⟨.inr ⟨existing, hrecords, fun hnone ↦ ?_⟩, fun object hobject ↦ ?_⟩,
          Option.isSome_of_eq_some hfind⟩
        · rw [hfind] at hnone
          cases hnone
        · exact ⟨table, columns', fts', Option.some.inj (hobject.symm.trans hfind)⟩
      · cases h
      · rename_i hnone
        split at h
        · cases h
        · rename_i hmissing
          obtain rfl := Except.ok.inj h
          refine .inr ⟨hnone, rfl, .inr ⟨existing, hrecords, fun _ ↦ hmissing⟩,
            fun object hobject ↦ ?_⟩
          rw [hnone] at hobject
          cases hobject
    · cases h
    · cases h

theorem run_of_takes (htakes : Takes s d) (hrecords : d.isIndex → (s.find "records").isSome) :
    ∃ t, d.run s = .ok t := by
  cases d with
  | table name columns =>
    simp only [Ddl.run]
    split
    · rename_i table columns' fts hfind
      exact absurd hfind (htakes table columns' fts)
    · exact ⟨_, rfl⟩
    · exact ⟨_, rfl⟩
  | index name columns fts =>
    obtain ⟨hnone | ⟨existing, hexisting, hmissing⟩, hindex⟩ := htakes
    · have hsome := hrecords trivial
      rw [hnone] at hsome
      cases hsome
    · simp only [Ddl.run, hexisting]
      cases hfind : s.find name with
      | none =>
        simp only [hmissing hfind]
        exact ⟨_, rfl⟩
      | some object =>
        obtain ⟨table, columns', fts', rfl⟩ := hindex object hfind
        exact ⟨s, rfl⟩

def Ddl.indexed : Ddl → List String
  | .table .. => []
  | .index _ columns _ => columns

theorem records_columns : ∀ d ∈ ddl, Ddl.missing recordsColumns d.indexed = none := by decide

theorem find_records (hd : d ∈ ddl) (hne : d ≠ recordsDdl) :
    (s.add d.name object).find "records" = s.find "records" :=
  find_add_of_ne hd List.mem_cons_self hne

theorem takes_add (hd : d ∈ ddl) (he : e ∈ ddl) (hnone : s.find d.name = none) (htakes : Takes s d)
    (hrecords : d.isIndex → ∃ existing, s.find "records" = some (.table existing)) :
    Takes s e ↔ Takes (s.add d.name d.object) e := by
  by_cases hsame : d = e
  · subst hsame
    refine iff_of_true htakes ?_
    have hself : (s.add d.name d.object).find d.name = some d.object := find_add_self hnone
    cases d with
    | table name columns =>
      intro table columns' fts hindex
      cases hself.symm.trans hindex
    | index name columns fts =>
      obtain ⟨existing, hexisting⟩ := hrecords trivial
      refine ⟨.inr ⟨existing, ?_, fun hfind ↦ ?_⟩, fun object hobject ↦ ?_⟩
      · rw [← hexisting]
        exact find_records hd Ddl.noConfusion
      · cases hself.symm.trans hfind
      · exact ⟨_, _, _, Option.some.inj (hobject.symm.trans hself)⟩
  · have hfind : (s.add d.name d.object).find e.name = s.find e.name := find_add_of_ne hd he hsame
    cases e with
    | table name columns =>
      change (∀ table columns fts, s.find name ≠ _) ↔ ∀ table columns fts, Schema.find _ name ≠ _
      rw [show (s.add d.name d.object).find name = s.find name from hfind]
    | index name columns fts =>
      change (_ ∨ _) ∧ _ ↔ (_ ∨ _) ∧ _
      rw [show (s.add d.name d.object).find name = s.find name from hfind]
      refine and_congr_left fun _ ↦ ?_
      by_cases hdr : d = recordsDdl
      · subst hdr
        have hcolumns : Ddl.missing recordsColumns columns = none := records_columns _ he
        refine iff_of_true (.inl hnone)
          (.inr ⟨recordsColumns, find_add_self hnone, fun _ ↦ hcolumns⟩)
      · rw [find_records hd hdr]

structure Checked (s : Schema) : Prop where
  version : s.userVersion ≤ 0 ∨ s.userVersion = schemaVersion
  records : s.userVersion = 0 ∧ s.userObject = false ∨
    "SearchText" ∈ s.tableInfo "records" ∧ "Headers" ∉ s.tableInfo "records"

structure Grown (s t : Schema) : Prop where
  version : t.userVersion = s.userVersion ∨ t.userVersion = schemaVersion
  triggers : t.triggers = s.triggers
  objects : ∃ added : List Ddl, (∀ d ∈ added, d ∈ ddl ∧ s.find d.name = none) ∧
    t.objects = s.objects ++ added.map fun d ↦ (d.name, d.object)
  found : ∀ name object, s.find name = some object → t.find name = some object
  takes : ∀ d ∈ ddl, Takes s d ↔ Takes t d

namespace Grown

theorem refl (s : Schema) : Grown s s where
  version := .inl rfl
  triggers := rfl
  objects := ⟨[], fun _ h ↦ absurd h List.not_mem_nil, (List.append_nil _).symm⟩
  found _ _ h := h
  takes _ _ := .rfl

theorem trans (h : Grown s t) (h' : Grown t u) : Grown s u where
  version := by
    rcases h'.version with hsame | hnew
    · exact h.version.imp hsame.trans hsame.trans
    · exact .inr hnew
  triggers := h'.triggers.trans h.triggers
  objects := by
    obtain ⟨added, hadded, hobjects⟩ := h.objects
    obtain ⟨added', hadded', hobjects'⟩ := h'.objects
    refine ⟨added ++ added', fun d hd ↦ ?_, ?_⟩
    · rcases List.mem_append.mp hd with hd | hd
      · exact hadded d hd
      · obtain ⟨hmem, hnone⟩ := hadded' d hd
        refine ⟨hmem, Option.eq_none_iff_forall_ne_some.mpr fun object hfind ↦ ?_⟩
        rw [h.found _ object hfind] at hnone
        cases hnone
    · rw [hobjects', hobjects, List.map_append, List.append_assoc]
  found name object hfind := h'.found name object (h.found name object hfind)
  takes d hd := (h.takes d hd).trans (h'.takes d hd)

theorem setVersion (s : Schema) : Grown s { s with userVersion := schemaVersion } where
  version := .inr rfl
  triggers := rfl
  objects := (refl s).objects
  found _ _ h := h
  takes d _ := by cases d <;> rfl

theorem run (hd : d ∈ ddl) (h : d.run s = .ok t) : Grown s t := by
  obtain ⟨hrecords, ⟨rfl, -⟩ | ⟨hnone, rfl, htakes⟩⟩ := run_cases h
  · exact refl _
  · refine ⟨.inl rfl, rfl, ⟨[d], fun e he ↦ ?_, rfl⟩, fun name object hfind ↦ ?_,
      fun e he ↦ takes_add hd he hnone htakes hrecords⟩
    · rw [List.mem_singleton.mp he]
      exact ⟨hd, hnone⟩
    rw [Schema.find, Option.map_eq_some_iff] at hfind ⊢
    obtain ⟨o, ho, hobject⟩ := hfind
    refine ⟨o, ?_, hobject⟩
    rw [Schema.add, List.find?_append, ho, Option.some_or]

theorem has (h : Grown s t) (hd : d ∈ ddl) (hhas : Has s d) : Has t d := by
  obtain ⟨object, hfind⟩ := Option.isSome_iff_exists.mp hhas.2
  exact ⟨(h.takes d hd).mp hhas.1, Option.isSome_of_eq_some (h.found d.name object hfind)⟩

theorem tableInfo (h : Grown s t) (hrecords : (s.find "records").isSome) :
    t.tableInfo "records" = s.tableInfo "records" := by
  obtain ⟨object, hfind⟩ := Option.isSome_iff_exists.mp hrecords
  rw [Schema.tableInfo, Schema.tableInfo, hfind, h.found _ object hfind]

end Grown

theorem has_run (hd : d ∈ ddl) (h : d.run s = .ok t) : Has t d := by
  obtain ⟨hrecords, ⟨rfl, hhas⟩ | ⟨hnone, rfl, htakes⟩⟩ := run_cases h
  · exact hhas
  · exact ⟨(takes_add hd hd hnone htakes hrecords).mp htakes,
      Option.isSome_of_eq_some (find_add_self hnone)⟩

theorem userObject_of_find (hd : d ∈ ddl) (h : (s.find d.name).isSome) : s.userObject = true := by
  by_contra hnot
  rw [find_of_not_userObject (Bool.eq_false_iff.mpr hnot) hd] at h
  cases h

theorem tableInfo_of_not_userObject (h : s.userObject = false) : s.tableInfo "records" = [] := by
  have hnone : s.find "records" = none :=
    find_of_not_userObject (d := recordsDdl) h List.mem_cons_self
  rw [Schema.tableInfo, hnone]

theorem Checked.grown (h : Checked s) (hrecords : (s.find "records").isSome) (hgrown : Grown s t) :
    Checked t where
  version := by
    rcases hgrown.version with hsame | hnew
    · rw [hsame]
      exact h.version
    · exact .inr hnew
  records := by
    rcases h.records with ⟨-, hobject⟩ | hcolumns
    · rw [userObject_of_find (d := recordsDdl) List.mem_cons_self hrecords] at hobject
      cases hobject
    · rw [hgrown.tableInfo hrecords]
      exact .inr hcolumns

theorem Checked.records_run (h : Checked s) (hrun : recordsDdl.run s = .ok t) : Checked t := by
  obtain ⟨-, ⟨rfl, -⟩ | ⟨hnone, rfl, -⟩⟩ := run_cases hrun
  · exact h
  · have hinfo : (s.add recordsDdl.name recordsDdl.object).tableInfo "records" =
        recordsColumns := by
      have hfind : (s.add recordsDdl.name recordsDdl.object).find "records" =
          some recordsDdl.object := find_add_self hnone
      rw [Schema.tableInfo, hfind]
      rfl
    exact ⟨h.version, .inr (by rw [hinfo]; decide)⟩

variable {file : Option File} {crash : Option File → Prop} {todo : List Ddl} {withFts : Bool}

def Reached (s : Schema) (file : Option File) : Prop :=
  ∃ t, schemaOf file = some t ∧ Checked t ∧ Grown s t

/-- The records are there, and what is not yet to be done. -/
def Stage (s : Schema) (todo : List Ddl) (file : Option File) : Prop :=
  ∃ t, schemaOf file = some t ∧ Checked t ∧ Grown s t ∧ (t.find "records").isSome ∧
    ∀ d ∈ ddl, d ∈ todo ∨ Has t d

theorem Stage.reached (h : Stage s todo file) : Reached s file := by
  obtain ⟨t, hs, hchecked, hgrown, -⟩ := h
  exact ⟨t, hs, hchecked, hgrown⟩

theorem triple_query {α : Type} {f : Schema → α} (hs : schemaOf file = some s)
    (hcrash : crash file) :
    Triple crash (· = file) (query f) (fun a g ↦ a = f s ∧ g = file) fun _ ↦ (· = file) := by
  refine .step fun fault g hg ↦ ?_
  subst hg
  rw [hs]
  cases fault with
  | none => exact ⟨hcrash, rfl, rfl⟩
  | some error => exact ⟨hcrash, rfl⟩

theorem triple_execute (hd : d ∈ ddl) (hne : d ≠ recordsDdl) :
    Triple (Reached s) (Stage s (d :: todo)) (execute d.run) (fun _ ↦ Stage s todo)
      fun _ ↦ Reached s := by
  refine .step fun fault file hstage ↦ ?_
  have hreached := hstage.reached
  obtain ⟨t, hs, hchecked, hgrown, hrecords, htodo⟩ := hstage
  rw [hs, Option.map_some]
  cases fault with
  | some error => exact ⟨hreached, hreached⟩
  | none =>
    cases hrun : d.run t with
    | error error => exact ⟨hreached, hreached⟩
    | ok u =>
      have hstep := Grown.run hd hrun
      have hafter : Stage s todo (some (.database u)) := by
        refine ⟨u, rfl, hchecked.grown hrecords hstep, hgrown.trans hstep, ?_, fun e he ↦ ?_⟩
        · obtain ⟨object, hfind⟩ := Option.isSome_iff_exists.mp hrecords
          exact Option.isSome_of_eq_some (hstep.found _ object hfind)
        · rcases htodo e he with hmem | hhas
          · rcases List.mem_cons.mp hmem with rfl | hmem
            · exact .inr (has_run hd hrun)
            · exact .inl hmem
          · exact .inr (hstep.has he hhas)
      exact ⟨hafter.reached, hafter⟩

theorem triple_records (hs : schemaOf file = some s) (hchecked : Checked s) :
    Triple (Reached s) (· = file) (execute recordsDdl.run)
      (fun _ ↦ Stage s (payloadsDdl :: indexDdl ++ [ftsDdl])) fun _ ↦ Reached s := by
  refine .step fun fault g hg ↦ ?_
  subst hg
  have hreached : Reached s g := ⟨s, hs, hchecked, .refl s⟩
  rw [hs, Option.map_some]
  cases fault with
  | some error => exact ⟨hreached, hreached⟩
  | none =>
    cases hrun : recordsDdl.run s with
    | error error => exact ⟨hreached, hreached⟩
    | ok t =>
      have hhas := has_run List.mem_cons_self hrun
      have hafter : Stage s (payloadsDdl :: indexDdl ++ [ftsDdl]) (some (.database t)) := by
        refine ⟨t, rfl, hchecked.records_run hrun, .run List.mem_cons_self hrun, hhas.2,
          fun d hd ↦ ?_⟩
        rcases List.mem_cons.mp hd with rfl | hd
        · exact .inr hhas
        · exact .inl hd
      exact ⟨hafter.reached, hafter⟩

theorem triple_setVersion : Triple (Reached s) (Stage s todo) (execute setVersion)
    (fun _ file ↦ Stage s todo file ∧ (schemaOf file).map Schema.userVersion = some schemaVersion)
    fun _ ↦ Reached s := by
  refine .step fun fault file hstage ↦ ?_
  have hreached := hstage.reached
  obtain ⟨t, hs, hchecked, hgrown, hrecords, htodo⟩ := hstage
  rw [hs, Option.map_some]
  cases fault with
  | some error => exact ⟨hreached, hreached⟩
  | none =>
    have hstep := Grown.setVersion t
    have hafter : Stage s todo (some (.database { t with userVersion := schemaVersion })) :=
      ⟨_, rfl, hchecked.grown hrecords hstep, hgrown.trans hstep, hrecords,
        fun e he ↦ (htodo e he).imp_right (hstep.has he)⟩
    exact ⟨hafter.reached, hafter, rfl⟩

def Complete (withFts : Bool) (t : Schema) : Prop :=
  t.userVersion = schemaVersion ∧ ∀ d ∈ ddl, (d = ftsDdl → withFts = true) → Has t d

theorem indexDdl_subset : ∀ d ∈ indexDdl, d ∈ ddl ∧ d ≠ recordsDdl := by decide

/-- What is left to do of a list of indexes. -/
def Pending (s : Schema) (todo : List Ddl) (file : Option File) : Prop :=
  (∀ d ∈ todo, d ∈ ddl ∧ d ≠ recordsDdl) ∧ Stage s (todo ++ [ftsDdl]) file

theorem triple_index (d : Ddl) (todo : List Ddl) : Triple (Reached s) (Pending s (d :: todo))
    (execute d.run) (fun _ ↦ Pending s todo) fun _ ↦ Reached s := by
  refine .assuming fun hall ↦ ?_
  obtain ⟨⟨hd, hne⟩, hrest⟩ := List.forall_mem_cons.mp hall
  exact (triple_execute hd hne).mono (fun _ h ↦ h) (fun _ _ h ↦ ⟨hrest, h⟩) fun _ _ h ↦ h

theorem triple_indexes : Triple (Reached s) (Stage s (indexDdl ++ [ftsDdl]))
    (.forEach (fun d ↦ execute d.run) indexDdl) (fun _ ↦ Pending s []) fun _ ↦ Reached s :=
  (Triple.forEach triple_index).pre_mono fun _ h ↦ ⟨indexDdl_subset, h⟩

def left (withFts : Bool) : List Ddl := if withFts then [] else [ftsDdl]

theorem triple_fts : Triple (Reached s) (Pending s []) (if withFts then createFts else pure ())
    (fun _ ↦ Stage s (left withFts)) fun _ ↦ Reached s := by
  cases withFts with
  | true => exact (triple_execute (by decide) (by decide)).pre_mono fun _ h ↦ h.2
  | false => exact .ret fun _ h ↦ h.2

theorem triple_statements (hs : schemaOf file = some s) (hchecked : Checked s) :
    Triple (Reached s) (· = file) (statements withFts)
      (fun _ file ↦ Stage s (left withFts) file ∧
        (schemaOf file).map Schema.userVersion = some schemaVersion) fun _ ↦ Reached s := by
  refine .bind (triple_records hs hchecked) fun _ ↦
    .bind (triple_execute (by decide) (by decide)) fun _ ↦ .bind triple_indexes fun _ ↦
    .bind triple_fts fun _ ↦ triple_setVersion

def Probed (s : Schema) : Prop :=
  s.userVersion ≤ schemaVersion ∧
    (s.tableInfo "records" = [] ∧ s.userVersion = 0 ∧ s.userObject = false ∨
      s.userVersion ≠ 7 ∧ "SearchText" ∈ s.tableInfo "records")

theorem Checked.probed (h : Checked s) : Probed s := by
  have hversion := h.version
  rw [schemaVersion] at hversion
  refine ⟨?_, ?_⟩
  · rw [schemaVersion]
    omega
  · rcases h.records with ⟨hzero, hobject⟩ | ⟨hsearch, -⟩
    · exact .inl ⟨tableInfo_of_not_userObject hobject, hzero, hobject⟩
    · exact .inr ⟨by omega, hsearch⟩

theorem triple_probeSchema (hs : schemaOf file = some s) (hcrash : crash file) :
    Triple crash (· = file) probeSchema (fun kind g ↦ (refusal kind = none ↔ Probed s) ∧ g = file)
      fun _ ↦ (· = file) := by
  have hempty : Probed {} := ⟨by decide, .inl ⟨rfl, rfl, rfl⟩⟩
  refine .look_bind fun g hg ↦ ?_
  subst hg
  split
  · obtain rfl := Option.some.inj hs
    exact .ret fun _ h ↦ ⟨iff_of_true rfl hempty, h⟩
  · obtain rfl := Option.some.inj hs
    exact .ret fun _ h ↦ ⟨iff_of_true rfl hempty, h⟩
  · refine .bind (triple_query hs hcrash) fun version ↦ .assuming fun hversion ↦ ?_
    subst hversion
    split
    · rename_i hnewer
      exact .ret fun _ h ↦
        ⟨iff_of_false (Option.some_ne_none _) fun hp ↦ absurd hp.1 (Int.not_le.mpr hnewer), h⟩
    · rename_i hold
      have hle : s.userVersion ≤ schemaVersion := Int.not_lt.mp hold
      refine .bind (triple_query hs hcrash) fun columns ↦ .assuming fun hcolumns ↦ ?_
      subst hcolumns
      have hrest : Probed s ↔ s.tableInfo "records" = [] ∧ s.userVersion = 0 ∧
          s.userObject = false ∨
          s.userVersion ≠ 7 ∧ "SearchText" ∈ s.tableInfo "records" := and_iff_right hle
      split
      · rename_i hnone
        have hcolumns : s.tableInfo "records" = [] := List.isEmpty_iff.mp hnone
        refine .bind (triple_query hs hcrash) fun userObject ↦ .assuming fun hobject ↦
          .ret fun _ h ↦ ⟨?_, h⟩
        subst hobject
        rw [hrest, hcolumns]
        split
        · rename_i hblank
          exact iff_of_true rfl (.inl ⟨rfl, hblank⟩)
        · rename_i hblank
          exact iff_of_false (Option.some_ne_none _) fun hor ↦ hor.elim (fun h ↦ hblank h.2) fun h ↦
            absurd h.2 List.not_mem_nil
      · rename_i hsome
        have hcolumns : s.tableInfo "records" ≠ [] := fun h ↦ hsome (List.isEmpty_iff.mpr h)
        rw [or_iff_right fun h : _ ∧ _ ↦ hcolumns h.1] at hrest
        rw [hrest]
        split
        · rename_i hseven
          exact .ret fun _ h ↦ ⟨iff_of_false (Option.some_ne_none _) fun hp ↦ hp.1 hseven, h⟩
        · rename_i hseven
          split
          · rename_i hsearch
            exact .ret fun _ h ↦ ⟨iff_of_true rfl ⟨hseven, hsearch⟩, h⟩
          · rename_i hsearch
            split
            · exact .ret fun _ h ↦ ⟨iff_of_false (Option.some_ne_none _) fun hp ↦ hsearch hp.2, h⟩
            · exact .ret fun _ h ↦ ⟨iff_of_false (Option.some_ne_none _) fun hp ↦ hsearch hp.2, h⟩

theorem triple_checkSchema (hs : schemaOf file = some s) (hcrash : crash file) :
    Triple crash (· = file) checkSchema (fun _ g ↦ Probed s ∧ g = file) fun _ ↦ (· = file) := by
  refine .bind (triple_probeSchema hs hcrash) fun kind ↦ .assuming fun hkind ↦ ?_
  cases hrefusal : refusal kind with
  | none => exact .ret fun _ h ↦ ⟨hkind.mp hrefusal, h⟩
  | some error => exact .fail fun _ h ↦ h

/-- What opening can come to from a file, which it leaves alone if a check fails. -/
def Follows (file g : Option File) : Prop :=
  g = file ∨ ∃ s, schemaOf file = some s ∧ Checked s ∧ Reached s g

def Finished (withFts : Bool) (file g : Option File) : Prop :=
  ∃ s t, schemaOf file = some s ∧ Checked s ∧ g = some (.database t) ∧ Checked t ∧ Grown s t ∧
    Complete withFts t

theorem checked_of_probed (hprobed : Probed s) (hnewer : ¬schemaVersion < s.userVersion)
    (hlegacy : ¬(0 < s.userVersion ∧ s.userVersion < schemaVersion))
    (hheaders : ¬(s.tableInfo "records" ≠ [] ∧ "Headers" ∈ s.tableInfo "records")) : Checked s := by
  rw [schemaVersion] at hnewer hlegacy
  refine ⟨?_, ?_⟩
  · rw [schemaVersion]
    omega
  · rcases hprobed.2 with ⟨-, hblank⟩ | ⟨-, hsearch⟩
    · exact .inl hblank
    · exact .inr ⟨hsearch, fun h ↦ hheaders ⟨List.ne_nil_of_mem hsearch, h⟩⟩

theorem finished_of_stage {g : Option File} (hs : schemaOf file = some s) (hchecked : Checked s)
    (hstage : Stage s (left withFts) g)
    (hversion : (schemaOf g).map Schema.userVersion = some schemaVersion) :
      Finished withFts file g := by
  obtain ⟨t, ht, hchecked', hgrown, -, htodo⟩ := hstage
  rw [ht, Option.map_some, Option.some.injEq] at hversion
  have hdatabase : g = some (.database t) := by
    rcases g with - | - | u | -
    · cases ht
      exact absurd hversion (by decide)
    · cases ht
      exact absurd hversion (by decide)
    · rw [Option.some.inj ht]
    · cases ht
  refine ⟨s, t, hs, hchecked, hdatabase, hchecked', hgrown, hversion, fun d hd hfts ↦ ?_⟩
  rcases htodo d hd with hleft | hhas
  · cases withFts with
    | true => cases hleft
    | false => exact absurd (hfts (List.mem_singleton.mp hleft)) Bool.false_ne_true
  · exact hhas

theorem triple_initV8Schema (hs : schemaOf file = some s) (hprobed : Probed s) :
    Triple (Follows file) (· = file) (initV8Schema withFts) (fun _ ↦ Finished withFts file)
      fun _ ↦ Follows file := by
  have hsame : ∀ g, g = file → Follows file g := fun _ ↦ .inl
  have hquery {α : Type} (f : Schema → α) : Triple (Follows file) (· = file) (query f)
      (fun a g ↦ a = f s ∧ g = file) fun _ ↦ Follows file :=
    (triple_query hs (.inl rfl)).raised_mono fun _ ↦ hsame
  refine .bind (hquery Schema.userVersion) fun version ↦ .assuming fun hversion ↦ ?_
  subst hversion
  split
  · exact .fail hsame
  · rename_i hnewer
    split
    · exact .fail hsame
    · rename_i hlegacy
      refine .bind (hquery (·.tableInfo "records")) fun existing ↦ .assuming fun hexisting ↦ ?_
      subst hexisting
      split
      · exact .fail hsame
      · rename_i hheaders
        split
        · exact .fail hsame
        · have hchecked := checked_of_probed hprobed hnewer hlegacy hheaders
          have hreached : ∀ g, Reached s g → Follows file g := fun _ h ↦ .inr ⟨s, hs, hchecked, h⟩
          exact ((triple_statements hs hchecked).crash_mono hreached).mono (fun _ h ↦ h)
            (fun _ _ h ↦ finished_of_stage hs hchecked h.1 h.2) fun _ ↦ hreached

theorem Follows.trans {g h : Option File} (hfg : Follows file g) (hgh : Follows g h) :
    Follows file h := by
  rcases hfg with rfl | ⟨s, hs, hchecked, t, ht, hchecked', hgrown⟩
  · exact hgh
  · rcases hgh with rfl | ⟨t', ht', -, u, hu, hchecked'', hgrown'⟩
    · exact .inr ⟨s, hs, hchecked, t, ht, hchecked', hgrown⟩
    · obtain rfl := Option.some.inj (ht.symm.trans ht')
      exact .inr ⟨s, hs, hchecked, u, hu, hchecked'', hgrown.trans hgrown'⟩

theorem checked_empty : Checked {} := ⟨.inl (by decide), .inl ⟨rfl, rfl⟩⟩

theorem triple_openDb (hs : schemaOf file = some s) : Triple (Follows file) (· = file)
    (openDb false)
    (fun _ g ↦ schemaOf g = some s ∧ Follows file g) fun _ ↦ Follows file := by
  refine .step fun fault g hg ↦ ?_
  subst hg
  cases fault with
  | some error => exact ⟨.inl rfl, .inl rfl⟩
  | none =>
    rcases g with - | - | u | -
    · have hmade : Follows none (some .empty) :=
        .inr ⟨{}, rfl, checked_empty, {}, rfl, checked_empty, .refl _⟩
      exact ⟨hmade, hs, hmade⟩
    · exact ⟨.inl rfl, hs, .inl rfl⟩
    · exact ⟨.inl rfl, hs, .inl rfl⟩
    · cases hs

theorem triple_vacuous {α : Type} {p : Opening α} {post : α → Option File → Prop}
    {raised : DbError → Option File → Prop} : Triple crash (fun _ ↦ False) p post raised :=
  fun _ h ↦ h.elim

theorem triple_checkSchema_other (hs : schemaOf file = none) :
    Triple (Follows file) (· = file) checkSchema (fun _ _ ↦ False) fun _ ↦ Follows file := by
  have hquery : Triple (Follows file) (· = file) (query Schema.userVersion) (fun _ _ ↦ False)
      fun _ ↦ Follows file := by
    refine .step fun fault g hg ↦ ?_
    subst hg
    rw [hs]
    cases fault <;> exact ⟨.inl rfl, .inl rfl⟩
  have hprobe : Triple (Follows file) (· = file) probeSchema (fun _ _ ↦ False) fun _ ↦
      Follows file := by
    refine .look_bind fun g hg ↦ ?_
    subst hg
    split
    · cases hs
    · cases hs
    · exact .bind hquery fun _ ↦ triple_vacuous
  exact .bind hprobe fun _ ↦ triple_vacuous

theorem triple_openWritable : Triple (Follows file) (· = file) (openWithFts false withFts)
    (fun _ ↦ Finished withFts file) fun _ ↦ Follows file := by
  refine .look_bind fun g hg ↦ ?_
  subst hg
  cases hs : schemaOf g with
  | none =>
    have hsome : g.isSome := by
      cases g with
      | none => cases hs
      | some file => rfl
    rw [if_pos ⟨rfl, hsome⟩]
    exact .bind (triple_checkSchema_other hs) fun _ ↦ triple_vacuous
  | some s =>
    have hcheck : Triple (Follows g) (· = g)
        (if false = false ∧ g.isSome then checkSchema else pure ())
        (fun _ h ↦ Probed s ∧ h = g) fun _ ↦ Follows g := by
      split
      · exact (triple_checkSchema hs (.inl rfl)).raised_mono fun _ _ ↦ .inl
      · rename_i hnone
        refine .ret fun _ h ↦ ⟨?_, h⟩
        cases g with
        | none =>
          obtain rfl := Option.some.inj hs
          exact checked_empty.probed
        | some file => exact absurd ⟨rfl, rfl⟩ hnone
    refine .bind hcheck fun _ ↦ .assuming fun hprobed ↦ .bind (triple_openDb hs) fun _ ↦ ?_
    refine .of_each fun h hopened ↦ ?_
    obtain ⟨hh, hfollows⟩ := hopened
    refine ((triple_initV8Schema hh hprobed).crash_mono fun _ ↦ hfollows.trans).mono (fun _ h ↦ h)
      (fun _ k hk ↦ ?_) fun _ _ ↦ hfollows.trans
    obtain ⟨s', t, hs', hchecked, hrest⟩ := hk
    obtain rfl := Option.some.inj (hh.symm.trans hs')
    exact ⟨s, t, hs, hchecked, hrest⟩

theorem triple_openReadOnly : Triple (Follows file) (· = file) (openWithFts true withFts)
    (fun _ ↦ (· = file)) fun _ ↦ (· = file) := by
  have hopen : Triple (Follows file) (· = file) (openDb true) (fun _ ↦ (· = file)) fun _ ↦
      (· = file) := by
    refine .step fun fault g hg ↦ ?_
    subst hg
    cases fault with
    | some error => exact ⟨.inl rfl, rfl⟩
    | none => rcases g with - | - | u | - <;> exact ⟨.inl rfl, rfl⟩
  refine .look_bind fun g hg ↦ ?_
  rw [if_neg fun h ↦ Bool.false_ne_true h.1.symm]
  subst hg
  exact .bind (.ret fun _ h ↦ h) fun _ ↦ .bind hopen fun _ ↦ .ret fun _ h ↦ h

/-- `open_deferred_fts`, and the index once the rows are loaded. -/
def openThenIndex : Opening Unit := do
  openWithFts false false
  createFts

theorem triple_openThenIndex : Triple (Follows file) (· = file) openThenIndex (fun _ ↦ Follows file)
    fun _ ↦ Follows file := by
  refine .bind triple_openWritable fun _ ↦ .of_each fun g hg ↦ ?_
  obtain ⟨s, t, hs, hchecked, hdatabase, hchecked', hgrown, -, hhas⟩ := hg
  subst hdatabase
  have hreached : ∀ g, Reached s g → Follows file g := fun _ h ↦ .inr ⟨s, hs, hchecked, h⟩
  have hstage : Stage s [ftsDdl] (some (.database t)) := by
    refine ⟨t, rfl, hchecked', hgrown, (hhas recordsDdl List.mem_cons_self (by decide)).2,
      fun d hd ↦ ?_⟩
    by_cases hfts : d = ftsDdl
    · exact .inl (List.mem_singleton.mpr hfts)
    · exact .inr (hhas d hd fun h ↦ absurd h hfts)
  exact ((triple_execute (by decide) (by decide)).crash_mono hreached).mono (fun _ h ↦ h ▸ hstage)
    (fun _ g h ↦ hreached g h.reached) fun _ ↦ hreached

def Openable (file : Option File) : Prop :=
  ∃ s, schemaOf file = some s ∧ Checked s ∧ ∀ d ∈ ddl, Takes s d

theorem returns_query {α : Type} {f : Schema → α} (hs : schemaOf file = some s) :
    Returns (· = file) (query f) := by
  refine .step fun g hg ↦ ?_
  rw [hg, hs]
  exact ⟨_, rfl⟩

theorem returns_execute {f : Schema → Except DbError Schema} {pre : Option File → Prop}
    (h : ∀ file, pre file → ∃ t u, schemaOf file = some t ∧ f t = .ok u) :
      Returns pre (execute f) := by
  refine .step fun g hg ↦ ?_
  obtain ⟨t, u, ht, hu⟩ := h g hg
  rw [ht, Option.map_some, hu]
  exact ⟨_, rfl⟩

theorem returns_stage (htakes : Takes s d) (hd : d ∈ ddl) :
    Returns (Stage s todo) (execute d.run) := by
  refine returns_execute fun g hg ↦ ?_
  obtain ⟨t, ht, -, hgrown, hrecords, -⟩ := hg
  obtain ⟨u, hu⟩ := run_of_takes ((hgrown.takes d hd).mp htakes) fun _ ↦ hrecords
  exact ⟨t, u, ht, hu⟩

theorem returns_statements (hs : schemaOf file = some s) (hchecked : Checked s)
    (htakes : ∀ d ∈ ddl, Takes s d) : Returns (· = file) (statements withFts) := by
  have hrecords : Returns (· = file) (execute recordsDdl.run) := by
    refine returns_execute fun g hg ↦ ?_
    obtain ⟨u, hu⟩ := run_of_takes (htakes recordsDdl List.mem_cons_self) False.elim
    exact ⟨s, u, hg ▸ hs, hu⟩
  have hindexes : Returns (Stage s (indexDdl ++ [ftsDdl]))
      (.forEach (fun d ↦ execute d.run) indexDdl) := by
    have hpending : Returns (Pending s indexDdl) (.forEach (fun d ↦ execute d.run) indexDdl) := by
      refine Returns.forEach triple_index fun d rest ↦ .assuming fun hall ↦ ?_
      have hd := (hall d List.mem_cons_self).1
      exact returns_stage (htakes d hd) hd
    exact hpending.pre_mono fun _ h ↦ ⟨indexDdl_subset, h⟩
  have hfts : Returns (Pending s []) (if withFts then createFts else pure ()) := by
    cases withFts with
    | true => exact (returns_stage (htakes ftsDdl (by decide)) (by decide)).pre_mono fun _ h ↦ h.2
    | false => exact .ret
  refine hrecords.bind (triple_records hs hchecked) fun _ ↦
    (returns_stage (htakes payloadsDdl (by decide)) (by decide)).bind
      (triple_execute (by decide) (by decide)) fun _ ↦
    hindexes.bind triple_indexes fun _ ↦ hfts.bind triple_fts fun _ ↦ ?_
  refine returns_execute fun g hg ↦ ?_
  obtain ⟨t, ht, -⟩ := hg
  exact ⟨t, _, ht, rfl⟩

theorem returns_probeSchema (hs : schemaOf file = some s) : Returns (· = file) probeSchema := by
  have hquery {α : Type} (f : Schema → α) : Returns (· = file) (query f) := returns_query hs
  have htriple {α : Type} (f : Schema → α) : Triple (fun _ ↦ True) (· = file) (query f)
      (fun a g ↦ a = f s ∧ g = file) fun _ ↦ (· = file) := triple_query hs trivial
  refine .look_bind fun g hg ↦ ?_
  subst hg
  split
  · exact .ret
  · exact .ret
  · refine (hquery _).bind (htriple _) fun version ↦ .assuming fun _ ↦ ?_
    split
    · exact .ret
    · refine (hquery _).bind (htriple _) fun columns ↦ .assuming fun _ ↦ ?_
      split
      · exact (hquery _).bind (htriple _) fun _ ↦ .ret
      · split
        · exact .ret
        · split
          · exact .ret
          · split <;> exact .ret

theorem returns_initV8Schema (hs : schemaOf file = some s) (hchecked : Checked s)
    (htakes : ∀ d ∈ ddl, Takes s d) : Returns (· = file) (initV8Schema withFts) := by
  have hquery {α : Type} (f : Schema → α) : Returns (· = file) (query f) := returns_query hs
  have htriple {α : Type} (f : Schema → α) : Triple (fun _ ↦ True) (· = file) (query f)
      (fun a g ↦ a = f s ∧ g = file) fun _ ↦ (· = file) := triple_query hs trivial
  have hversion := hchecked.version
  rw [schemaVersion] at hversion
  refine (hquery _).bind (htriple _) fun version ↦ .assuming fun hv ↦ ?_
  subst hv
  rw [schemaVersion, if_neg (by omega), if_neg (by omega)]
  refine (hquery _).bind (htriple _) fun existing ↦ .assuming fun hexisting ↦ ?_
  subst hexisting
  rcases hchecked.records with ⟨-, hobject⟩ | ⟨hsearch, hheaders⟩
  · rw [tableInfo_of_not_userObject hobject, if_neg fun h ↦ h.1 rfl, if_neg fun h ↦ h.1 rfl]
    exact returns_statements hs hchecked htakes
  · rw [if_neg fun h ↦ hheaders h.2, if_neg fun h ↦ h.2 hsearch]
    exact returns_statements hs hchecked htakes

theorem returns_openWithFts (h : Openable file) :
    Returns (· = file) (openWithFts false withFts) := by
  obtain ⟨s, hs, hchecked, htakes⟩ := h
  refine .look_bind fun g hg ↦ ?_
  subst hg
  have hcheck : Returns (· = g) checkSchema := by
    have htriple : Triple (fun _ ↦ True) (· = g) probeSchema
        (fun kind h ↦ (refusal kind = none ↔ Probed s) ∧ h = g) fun _ ↦ (· = g) :=
      triple_probeSchema hs trivial
    refine (returns_probeSchema hs).bind htriple fun kind ↦ .assuming fun hkind ↦ ?_
    rw [hkind.mpr hchecked.probed]
    exact .ret
  have hfirst : Returns (· = g) (if false = false ∧ g.isSome then checkSchema else pure ()) := by
    split
    · exact hcheck
    · exact .ret
  have hsame : Triple (fun _ ↦ True) (· = g)
      (if false = false ∧ g.isSome then checkSchema else pure ())
      (fun _ ↦ (· = g)) fun _ ↦ (· = g) := by
    split
    · exact (triple_checkSchema hs trivial).mono (fun _ h ↦ h) (fun _ _ h ↦ h.2) fun _ _ h ↦ h
    · exact .ret fun _ h ↦ h
  have hopen : Returns (· = g) (openDb false) := by
    refine .step fun h hh ↦ ?_
    subst hh
    rcases h with - | - | u | -
    · exact ⟨(), rfl⟩
    · exact ⟨(), rfl⟩
    · exact ⟨(), rfl⟩
    · cases hs
  refine hfirst.bind hsame fun _ ↦ hopen.bind (triple_openDb hs) fun _ ↦ ?_
  intro w hfaults hw
  exact returns_initV8Schema hw.1 hchecked htakes w hfaults rfl

/-- One opening, in whatever way, up to where its process stops. -/
def Opens (file g : Option File) : Prop :=
  (∃ readOnly withFts, Passes (openWithFts readOnly withFts) file g) ∨ Passes openThenIndex file g

abbrev Openings : Option File → Option File → Prop := Relation.ReflTransGen Opens

variable {g : Option File}

theorem follows_of_opens (h : Opens file g) : Follows file g := by
  have hpasses {α : Type} {p : Opening α} {post : α → Option File → Prop}
      {raised : DbError → Option File → Prop}
      (htriple : Triple (Follows file) (· = file) p post raised)
      (hp : Passes p file g) : Follows file g := by
    obtain ⟨faults, hmem⟩ := hp
    rcases (htriple ⟨file, faults, [file]⟩ rfl).1 g hmem with hstart | hfollows
    · exact .inl (List.mem_singleton.mp hstart)
    · exact hfollows
  rcases h with ⟨readOnly, withFts, h⟩ | h
  · cases readOnly with
    | true => exact hpasses triple_openReadOnly h
    | false => exact hpasses triple_openWritable h
  · exact hpasses triple_openThenIndex h

theorem follows_of_openings (h : Openings file g) : Follows file g := by
  induction h with
  | refl => exact .inl rfl
  | tail _ hstep ih => exact ih.trans (follows_of_opens hstep)

theorem eq_of_follows (hcomplete : Complete true t) (h : Follows (some (.database t)) g) :
    g = some (.database t) := by
  rcases h with rfl | ⟨s, hs, -, u, hu, -, hgrown⟩
  · rfl
  · obtain rfl : t = s := Option.some.inj hs
    obtain ⟨added, hadded, hobjects⟩ := hgrown.objects
    have hnil : added = [] := by
      refine List.eq_nil_iff_forall_not_mem.mpr fun d hd ↦ ?_
      obtain ⟨hmem, hnone⟩ := hadded d hd
      have hhas := (hcomplete.2 d hmem fun _ ↦ rfl).2
      rw [hnone] at hhas
      cases hhas
    rw [hnil, List.map_nil, List.append_nil] at hobjects
    have hversion : u.userVersion = t.userVersion :=
      hgrown.version.elim id fun h ↦ h.trans hcomplete.1.symm
    have hsame : u = t := by
      obtain ⟨version, objects, triggers⟩ := u
      cases hversion
      cases hobjects
      cases hgrown.triggers
      rfl
    subst hsame
    have hnot : u ≠ {} := by
      rintro rfl
      exact absurd hcomplete.1 (by decide)
    rcases g with - | - | v | -
    · exact absurd (Option.some.inj hu).symm hnot
    · exact absurd (Option.some.inj hu).symm hnot
    · rw [Option.some.inj hu]
    · cases hu

theorem Openable.follows (h : Openable file) (hg : Follows file g) : Openable g := by
  rcases hg with rfl | ⟨s, hs, -, t, ht, hchecked, hgrown⟩
  · exact h
  · obtain ⟨s', hs', -, htakes⟩ := h
    obtain rfl := Option.some.inj (hs.symm.trans hs')
    exact ⟨t, ht, hchecked, fun d hd ↦ (hgrown.takes d hd).mp (htakes d hd)⟩

theorem writable_true : Triple (Follows file) (· = file) (openWithFts false true)
    (fun _ ↦ Finished true file) fun _ ↦ Follows file := triple_openWritable

/-- However often the process has stopped while it opened a database, and wherever, the next
opening that meets no error completes the schema. It adds what is missing and leaves the rest, and
from then on no opening changes anything. -/
theorem openings_complete (hopen : Openable file) (h : Openings file g) :
    let r := openWithFts false true ⟨g, [], []⟩
    r.1 = .ok () ∧ ∃ s t, schemaOf file = some s ∧ r.2.state = some (.database t) ∧ Grown s t ∧
      Complete true t ∧ ∀ g', Openings r.2.state g' → g' = r.2.state := by
  intro r
  have hfollows := follows_of_openings h
  have hreturns : Returns (· = g) (openWithFts false true) :=
      returns_openWithFts (hopen.follows hfollows)
  obtain ⟨⟨a, ha⟩, -⟩ := hreturns ⟨g, [], []⟩ rfl rfl
  have hend := (writable_true ⟨g, [], []⟩ rfl).2
  rw [ha] at hend
  obtain ⟨s, t, hs, hchecked, hdatabase, hchecked', hgrown, hcomplete⟩ := hend
  have hreached : Follows file (some (.database t)) :=
    hfollows.trans (.inr ⟨s, hs, hchecked, t, rfl, hchecked', hgrown⟩)
  have hfrom : ∃ s₀, schemaOf file = some s₀ ∧ Grown s₀ t := by
    rcases hfollows with rfl | ⟨s₀, hs₀, -, u, hu, -, hgrown'⟩
    · exact ⟨s, hs, hgrown⟩
    · obtain rfl := Option.some.inj (hs.symm.trans hu)
      exact ⟨s₀, hs₀, hgrown'.trans hgrown⟩
  obtain ⟨s₀, hs₀, hgrown₀⟩ := hfrom
  refine ⟨ha, s₀, t, hs₀, hdatabase, hgrown₀, hcomplete, fun g' hg' ↦ ?_⟩
  rw [hdatabase] at hg' ⊢
  exact eq_of_follows hcomplete (follows_of_openings hg')

theorem openable_none : Openable none :=
  ⟨{}, rfl, checked_empty, fun d _ ↦ by
    cases d with
    | table name columns => exact fun _ _ _ h ↦ by cases h
    | index name columns fts => exact ⟨.inl rfl, fun _ h ↦ by cases h⟩⟩

def halfway : Option File := some (.database (Schema.add {} "records" (.table recordsColumns)))

theorem halfway_openings : Openings none halfway :=
  .single (.inl ⟨false, true, [none, none, none, none, some (.driver "disk full")], by decide⟩)

theorem openings_complete_halfway :
    let r := openWithFts false true ⟨halfway, [], []⟩
    r.1 = .ok () ∧ ∃ s t, schemaOf none = some s ∧ r.2.state = some (.database t) ∧ Grown s t ∧
      Complete true t ∧ ∀ g', Openings r.2.state g' → g' = r.2.state :=
  openings_complete openable_none halfway_openings

/-- A file that lacks something that opening cannot make is refused however often it is tried, and
with whatever errors; it is left alone unless only the statements fail. -/
theorem openings_refused (hopen : ¬Openable file) (h : Openings file g) :
    (∀ faults, (openWithFts false true ⟨g, faults, []⟩).1 ≠ .ok ()) ∧
      ((∀ s, schemaOf file = some s → ¬Checked s) → g = file) := by
  have hfollows := follows_of_openings h
  refine ⟨fun faults hok ↦ hopen ?_, fun hnot ↦ ?_⟩
  · have hend := (writable_true ⟨g, faults, []⟩ rfl).2
    rw [hok] at hend
    obtain ⟨s, t, hs, hchecked, -, -, hgrown, hcomplete⟩ := hend
    have htakes : ∀ d ∈ ddl, Takes s d := fun d hd ↦
      (hgrown.takes d hd).mpr (hcomplete.2 d hd fun _ ↦ rfl).1
    rcases hfollows with rfl | ⟨s₀, hs₀, hchecked₀, u, hu, -, hgrown'⟩
    · exact ⟨s, hs, hchecked, htakes⟩
    · obtain rfl := Option.some.inj (hs.symm.trans hu)
      exact ⟨s₀, hs₀, hchecked₀, fun d hd ↦ (hgrown'.takes d hd).mpr (htakes d hd)⟩
  · rcases hfollows with rfl | ⟨s, hs, hchecked, -⟩
    · rfl
    · exact absurd hchecked (hnot s hs)

def stripped : Schema := ⟨8, [("records", .table ["SearchText"])], []⟩

theorem not_openable_stripped : ¬Openable (some (.database stripped)) := by
  rintro ⟨s, hs, -, htakes⟩
  obtain rfl := Option.some.inj hs
  obtain ⟨hcolumns, -⟩ := htakes (.index "idx_records_time" ["TimeMs"] false) (by decide)
  rcases hcolumns with hnone | ⟨existing, hfind, hmissing⟩
  · exact absurd hnone (by decide)
  · have hrecords : stripped.find "records" = some (.table ["SearchText"]) := by decide
    obtain rfl := Object.table.inj (Option.some.inj (hrecords.symm.trans hfind))
    exact absurd (hmissing (by decide)) (by decide)

def strippedOpened : Option File :=
  some (.database (stripped.add "payloads" (.table payloadsColumns)))

theorem stripped_openings : Openings (some (.database stripped)) strippedOpened :=
  .single (.inl ⟨false, true, [], by decide⟩)

theorem openings_refused_stripped :
    (∀ faults, (openWithFts false true ⟨strippedOpened, faults, []⟩).1 ≠ .ok ()) ∧
      ((∀ s, schemaOf (some (.database stripped)) = some s → ¬Checked s) →
        strippedOpened = some (.database stripped)) :=
  openings_refused not_openable_stripped stripped_openings

end QueQiao.TursoSchema
