import QueQiao.Db.RecordsQuery
import QueQiao.Db.TextFilters
import QueQiao.Lib.SqlConditions

/-! The `WHERE` of a listing as it is written: its text, and the values for its parameters. -/

namespace QueQiao.RecordsQuery

open ErrorLogApi Lib.SqlConditions

inductive Column
  | timeMs
  | id
  | type
  | model
  | status
  | backend
  | ip
  | clientName
  | userAgent
  | sessionId
  | parentSessionId
  | requestId
  | apiKey
  | searchText
  deriving DecidableEq, Repr

def Column.name : Column → String
  | timeMs => "TimeMs"
  | id => "id"
  | type => "Type"
  | model => "Model"
  | status => "Status"
  | backend => "Backend"
  | ip => "IP"
  | clientName => "ClientName"
  | userAgent => "UserAgent"
  | sessionId => "SessionId"
  | parentSessionId => "ParentSessionId"
  | requestId => "RequestId"
  | apiKey => "ApiKey"
  | searchText => "SearchText"

def names : Names Column where
  col := Column.name
  search := "fts_match"
  col_plain c := by cases c <;> decide
  search_plain := by decide

structure Fields where
  type : Option Text := none
  model : Option Text := none
  status : Option ℤ := none
  backend : Option Text := none
  ip : Option Text := none
  clientName : Option Text := none
  userAgent : Option Text := none
  sessionId : Option Text := none
  parentSessionId : Option Text := none
  requestId : Option Text := none
  apiKey : Option Text := none
  searchText : Option Text := none

def ofText (v : Option Text) : Value := v.elim .null .text

def ofInt (v : Option ℤ) : Value := v.elim .null .int

def Record.values (row : Record Fields) : Column → Value
  | .timeMs => ofInt row.timeMs
  | .id => .int row.id
  | .type => ofText row.data.type
  | .model => ofText row.data.model
  | .status => ofInt row.data.status
  | .backend => ofText row.data.backend
  | .ip => ofText row.data.ip
  | .clientName => ofText row.data.clientName
  | .userAgent => ofText row.data.userAgent
  | .sessionId => ofText row.data.sessionId
  | .parentSessionId => ofText row.data.parentSessionId
  | .requestId => ofText row.data.requestId
  | .apiKey => ofText row.data.apiKey
  | .searchText => ofText row.data.searchText

structure FilterParams where
  fromMs : Option ℤ := none
  toMs : Option ℤ := none
  type : Option Text := none
  model : Option Text := none
  status : Option ℤ := none
  backend : Option Text := none
  ip : Option Text := none
  client : Option Text := none
  sessionId : Option Text := none
  parentSessionId : Option Text := none
  requestId : Option Text := none
  apikey : Option Text := none
  q : Option Text := none
  errors : Option Text := none

structure TextFunctions where
  lower : Text → Text
  toLowercase : Text → Text
  ftsMatch : Text → Text → Bool

def TextFunctions.functions (f : TextFunctions) : Functions where
  fold := asciiFold
  lower := f.lower
  like := like
  search := f.ftsMatch

def splitWhitespace (s : Text) : List Text := (s.splitOnP isWhiteSpace).filter (· ≠ [])

def ftsSpecial : List Char :=
  ['+', '-', '&', '|', '!', '(', ')', '\x7b', '\x7d', '[', ']', '^', '"', '~', '*', '?', ':', '\\',
    '/']

def escapeFtsTerm (term : Text) : Text :=
  term.flatMap fun c ↦ if c ∈ ftsSpecial then ['\\', c] else [c]

def ftsQuery (value : Text) : Text :=
  [' ', 'A', 'N', 'D', ' '].intercalate ((splitWhitespace value).map escapeFtsTerm)

abbrev Sql := String × List Value

def Sql.push (sql : Sql) (text : String) (binds : List Value) : Sql :=
  (sql.1 ++ text, sql.2 ++ binds)

def Sql.pushOpt {β : Type} (sql : Sql) (value : Option β) (text : String)
    (binds : β → List Value) : Sql :=
  value.elim sql fun v ↦ sql.push text (binds v)

def given (value : Option Text) : Option Text := value.filter (· ≠ [])

def Sql.pushOptText (sql : Sql) (column : String) (value : Option Text) : Sql :=
  sql.pushOpt (given value) (" AND " ++ column ++ " LIKE ? ESCAPE '\\'")
    fun v ↦ [.text (likeContains v)]

def FilterParams.errorMode (p : FilterParams) : Bool :=
  p.errors.any fun v ↦ v = ['1'] ∨ asciiFold v = ['t', 'r', 'u', 'e']

def FilterParams.search (p : FilterParams) : Option Text := given (p.q.map trim)

def Sql.pushSearch (f : TextFunctions) (sql : Sql) (v : Text) : Sql :=
  if 2 ≤ v.length then
    (splitWhitespace v).foldl
      (fun sql term ↦ sql.push " AND instr(lower(SearchText), ?) > 0" [.text (f.toLowercase term)])
      (sql.push " AND fts_match(SearchText, ?)" [.text (ftsQuery v)])
  else sql.push " AND SearchText LIKE ? ESCAPE '\\'" [.text (likeContains v)]

def buildFiltersSql (f : TextFunctions) (p : FilterParams) : Sql :=
  let sql : Sql := (" WHERE 1=1", [])
  let sql := sql.pushOpt p.fromMs " AND TimeMs >= ?" fun v ↦ [.int v]
  let sql := sql.pushOpt p.toMs " AND TimeMs <= ?" fun v ↦ [.int v]
  let sql := sql.pushOpt (given p.type) " AND Type = ?" fun v ↦ [.text v]
  let sql := sql.pushOpt (given p.model)
    " AND Model COLLATE NOCASE >= ? AND Model COLLATE NOCASE < ?"
    fun v ↦ [.text v, .text (prefixUpper v)]
  let sql := sql.pushOpt p.status " AND Status = ?" fun v ↦ [.int v]
  let sql := sql.pushOpt (given p.backend) " AND Backend = ?" fun v ↦ [.text v]
  let sql := sql.pushOpt (given p.ip)
    " AND IP COLLATE NOCASE >= ? AND IP COLLATE NOCASE < ?"
    fun v ↦ [.text v, .text (prefixUpper v)]
  let sql := sql.pushOpt (given p.client)
    " AND (ClientName LIKE ? ESCAPE '\\' OR UserAgent LIKE ? ESCAPE '\\')"
    fun v ↦ [.text (likeContains v), .text (likeContains v)]
  let sql := sql.pushOptText "SessionId" p.sessionId
  let sql := sql.pushOptText "ParentSessionId" p.parentSessionId
  let sql := sql.pushOptText "RequestId" p.requestId
  let sql := sql.pushOpt (given p.apikey) " AND ApiKey = ?" fun v ↦ [.text v]
  let sql := if p.errorMode then sql.push " AND Status >= 400" [] else sql
  p.search.elim sql (sql.pushSearch f)

def Sql.pushCursor (sql : Sql) (shardId : String) (cursor : CursorKey) : Sql :=
  match cursor.shard with
  | some cursorShard =>
    let shardLess : ℤ := if shardId < cursorShard then 1 else 0
    sql.push " AND ((TimeMs, id) < (?, ?) OR ((TimeMs, id) = (?, ?) AND ? = 1))"
      [.int cursor.timeMs, .int cursor.id, .int cursor.timeMs, .int cursor.id, .int shardLess]
  | none => sql.push " AND (TimeMs, id) < (?, ?)" [.int cursor.timeMs, .int cursor.id]

/-- The `WHERE` that the rows of a shard are read with. -/
def dataWhere (f : TextFunctions) (p : FilterParams) (cursor : Option CursorKey)
    (shardId : String) : Sql :=
  cursor.elim (buildFiltersSql f p) ((buildFiltersSql f p).pushCursor shardId)

def startsWith (v s : Text) : Bool := decide (asciiFold v <+: asciiFold s)

def contains (v s : Text) : Bool := decide (asciiFold v <:+: asciiFold s)

def hasText (f : TextFunctions) (v s : Text) : Bool :=
  if 2 ≤ v.length then
    f.ftsMatch s (ftsQuery v) &&
      (splitWhitespace v).all fun term ↦ decide (f.toLowercase term <:+: f.lower s)
  else contains v s

/-- A filter that is given asks for rows that have a value, and one that meets it. -/
def meets {β γ : Type} (filter : Option β) (test : β → γ → Bool) (value : Option γ) : Bool :=
  filter.all fun v ↦ value.any (test v)

def FilterParams.wants (f : TextFunctions) (p : FilterParams) (row : Fields) : Bool :=
  meets (given p.type) (· == ·) row.type &&
    meets (given p.model) startsWith row.model &&
    meets p.status (· == ·) row.status &&
    meets (given p.backend) (· == ·) row.backend &&
    meets (given p.ip) startsWith row.ip &&
    (given p.client).all
      (fun v ↦ row.clientName.any (contains v) || row.userAgent.any (contains v)) &&
    meets (given p.sessionId) contains row.sessionId &&
    meets (given p.parentSessionId) contains row.parentSessionId &&
    meets (given p.requestId) contains row.requestId &&
    meets (given p.apikey) (· == ·) row.apiKey &&
    (!p.errorMode || row.status.any (400 ≤ ·)) &&
    meets p.search (hasText f) row.searchText

def FilterParams.listParams (f : TextFunctions) (p : FilterParams) : ListParams Fields where
  fromMs := p.fromMs
  toMs := p.toMs
  others row := p.wants f row.data

def equalText (col : Column) (v : Text) : Clause Column := ⟨.cmp col false .eq, [.text v], rfl⟩

def compared (col : Column) (op : Op) (n : ℤ) : Clause Column := ⟨.cmp col false op, [.int n], rfl⟩

def ranged (col : Column) (v : Text) : List (Clause Column) :=
  [⟨.cmp col true .ge, [.text v], rfl⟩, ⟨.cmp col true .lt, [.text (prefixUpper v)], rfl⟩]

def containing (col : Column) (v : Text) : Clause Column :=
  ⟨.like col, [.text (likeContains v)], rfl⟩

def lowerContaining (term : Text) : Clause Column := ⟨.instrLower .searchText, [.text term], rfl⟩

def searching (v : Text) : Clause Column := ⟨.search .searchText, [.text (ftsQuery v)], rfl⟩

def failed : Clause Column := ⟨.atLeast .status 400, [], rfl⟩

def searchParts (f : TextFunctions) (v : Text) : List (Clause Column) :=
  if 2 ≤ v.length then
    searching v :: (splitWhitespace v).map fun term ↦ lowerContaining (f.toLowercase term)
  else [containing .searchText v]

def placed (op : Op) (cursor : CursorKey) : Clause Column :=
  ⟨.pair .timeMs .id op, [.int cursor.timeMs, .int cursor.id], rfl⟩

def cursorPart (shardId : String) (cursor : CursorKey) : Clause Column :=
  match cursor.shard with
  | some cursorShard =>
    (placed .lt cursor).or
      ((placed .eq cursor).and ⟨.isOne, [.int (if shardId < cursorShard then 1 else 0)], rfl⟩)
  | none => placed .lt cursor

def parts {β : Type} (value : Option β) (pieces : β → List (Clause Column)) :
    List (Clause Column) :=
  value.elim [] pieces

def filterParts (f : TextFunctions) (p : FilterParams) : List (Clause Column) :=
  parts p.fromMs (fun v ↦ [compared .timeMs .ge v]) ++
    parts p.toMs (fun v ↦ [compared .timeMs .le v]) ++
    parts (given p.type) (fun v ↦ [equalText .type v]) ++
    parts (given p.model) (ranged .model) ++
    parts p.status (fun v ↦ [compared .status .eq v]) ++
    parts (given p.backend) (fun v ↦ [equalText .backend v]) ++
    parts (given p.ip) (ranged .ip) ++
    parts (given p.client)
      (fun v ↦ [(containing .clientName v).or (containing .userAgent v)]) ++
    parts (given p.sessionId) (fun v ↦ [containing .sessionId v]) ++
    parts (given p.parentSessionId) (fun v ↦ [containing .parentSessionId v]) ++
    parts (given p.requestId) (fun v ↦ [containing .requestId v]) ++
    parts (given p.apikey) (fun v ↦ [equalText .apiKey v]) ++
    (if p.errorMode then [failed] else []) ++
    parts p.search (searchParts f)

def andText (clause : Clause Column) : String := " AND " ++ clause.cond.text names true

def Sql.Asks (sql : Sql) (clauses : List (Clause Column)) : Prop :=
  sql.1 = " WHERE " ++ (Clause.always.all clauses).cond.text names false ∧
    sql.2 = (Clause.always.all clauses).binds

theorem asks_nil : Sql.Asks (" WHERE 1=1", []) [] := ⟨rfl, rfl⟩

variable {sql : Sql} {clauses : List (Clause Column)}

theorem Sql.Asks.push (h : sql.Asks clauses) (clause : Clause Column) :
    (sql.push (andText clause) clause.binds).Asks (clauses ++ [clause]) := by
  constructor
  · rw [Clause.all_concat, Clause.text_and, Sql.push, h.1, andText]
    simp only [String.append_assoc]
  · rw [Clause.all_concat, Sql.push, h.2]
    rfl

theorem Sql.Asks.pushOne (h : sql.Asks clauses) (clause : Clause Column) {text : String}
    {binds : List Value} (htext : text = andText clause) (hbinds : binds = clause.binds) :
    (sql.push text binds).Asks (clauses ++ [clause]) := by
  subst htext hbinds
  exact h.push clause

theorem Sql.push_push (sql : Sql) (text text' : String) (binds binds' : List Value) :
    (sql.push text binds).push text' binds' = sql.push (text ++ text') (binds ++ binds') := by
  simp only [Sql.push, String.append_assoc, List.append_assoc]

theorem Sql.Asks.pushOpt (h : sql.Asks clauses) {β : Type} (value : Option β)
    (piece : β → Clause Column) {text : String} {binds : β → List Value}
    (htext : ∀ v, text = andText (piece v)) (hbinds : ∀ v, binds v = (piece v).binds) :
    (sql.pushOpt value text binds).Asks (clauses ++ parts value fun v ↦ [piece v]) := by
  cases value with
  | none => exact (List.append_nil clauses).symm ▸ h
  | some v => exact h.pushOne (piece v) (htext v) (hbinds v)

theorem Sql.Asks.pushRange (h : sql.Asks clauses) (value : Option Text) (col : Column)
    {text : String} (htext : ∀ v, text = String.join ((ranged col v).map andText)) :
    (sql.pushOpt value text fun v ↦ [.text v, .text (prefixUpper v)]).Asks
      (clauses ++ parts value (ranged col)) := by
  cases value with
  | none => exact (List.append_nil clauses).symm ▸ h
  | some v =>
    have htwo := (h.push ⟨.cmp col true .ge, [.text v], rfl⟩).push
      ⟨.cmp col true .lt, [.text (prefixUpper v)], rfl⟩
    rw [Sql.push_push, List.append_assoc] at htwo
    have hjoin : text = andText ⟨.cmp col true .ge, [.text v], rfl⟩ ++
        andText ⟨.cmp col true .lt, [.text (prefixUpper v)], rfl⟩ := by
      rw [htext v]
      simp [ranged, String.join]
    subst hjoin
    exact htwo

theorem Sql.Asks.pushTerms (f : TextFunctions) (h : sql.Asks clauses) (terms : List Text) :
    Sql.Asks (terms.foldl (fun sql term ↦
        sql.push " AND instr(lower(SearchText), ?) > 0" [.text (f.toLowercase term)]) sql)
      (clauses ++ terms.map fun term ↦ lowerContaining (f.toLowercase term)) := by
  induction terms generalizing sql clauses with
  | nil => exact (List.append_nil clauses).symm ▸ h
  | cons term terms ih =>
    have htext : " AND instr(lower(SearchText), ?) > 0" =
        andText (lowerContaining (f.toLowercase term)) := rfl
    have hterms := ih (h.pushOne _ htext rfl)
    rw [List.append_assoc] at hterms
    exact hterms

theorem Sql.Asks.pushSearch (f : TextFunctions) (h : sql.Asks clauses) (v : Text) :
    (sql.pushSearch f v).Asks (clauses ++ searchParts f v) := by
  rw [Sql.pushSearch, searchParts]
  split
  · have hfirst : (sql.push " AND fts_match(SearchText, ?)" [.text (ftsQuery v)]).Asks
        (clauses ++ [searching v]) := h.pushOne _ rfl rfl
    have hterms := hfirst.pushTerms f (splitWhitespace v)
    rw [List.append_assoc] at hterms
    exact hterms
  · exact h.pushOne _ rfl rfl

theorem Sql.Asks.pushErrors (h : sql.Asks clauses) (errorMode : Bool) :
    (if errorMode then sql.push " AND Status >= 400" [] else sql).Asks
      (clauses ++ if errorMode then [failed] else []) := by
  cases errorMode with
  | true => exact h.pushOne failed rfl rfl
  | false => exact (List.append_nil clauses).symm ▸ h

theorem asks_buildFiltersSql (f : TextFunctions) (p : FilterParams) :
    (buildFiltersSql f p).Asks (filterParts f p) := by
  have hfrom := asks_nil.pushOpt p.fromMs (compared .timeMs .ge)
    (fun _ ↦ (rfl : " AND TimeMs >= ?" = _)) (fun _ ↦ rfl)
  have hto := hfrom.pushOpt p.toMs (compared .timeMs .le)
    (fun _ ↦ (rfl : " AND TimeMs <= ?" = _)) (fun _ ↦ rfl)
  have htype := hto.pushOpt (given p.type) (equalText .type)
    (fun _ ↦ (rfl : " AND Type = ?" = _)) (fun _ ↦ rfl)
  have hmodel := htype.pushRange (given p.model) .model
    (fun _ ↦ (rfl : " AND Model COLLATE NOCASE >= ? AND Model COLLATE NOCASE < ?" = _))
  have hstatus := hmodel.pushOpt p.status (compared .status .eq)
    (fun _ ↦ (rfl : " AND Status = ?" = _)) (fun _ ↦ rfl)
  have hbackend := hstatus.pushOpt (given p.backend) (equalText .backend)
    (fun _ ↦ (rfl : " AND Backend = ?" = _)) (fun _ ↦ rfl)
  have hip := hbackend.pushRange (given p.ip) .ip
    (fun _ ↦ (rfl : " AND IP COLLATE NOCASE >= ? AND IP COLLATE NOCASE < ?" = _))
  have hclient := hip.pushOpt (given p.client)
    (fun v ↦ (containing .clientName v).or (containing .userAgent v))
    (fun _ ↦ (rfl :
      " AND (ClientName LIKE ? ESCAPE '\\' OR UserAgent LIKE ? ESCAPE '\\')" = _))
    (fun _ ↦ rfl)
  have hsession := hclient.pushOpt (given p.sessionId) (containing .sessionId)
    (fun _ ↦ (rfl : " AND SessionId LIKE ? ESCAPE '\\'" = _)) (fun _ ↦ rfl)
  have hparent := hsession.pushOpt (given p.parentSessionId) (containing .parentSessionId)
    (fun _ ↦ (rfl : " AND ParentSessionId LIKE ? ESCAPE '\\'" = _)) (fun _ ↦ rfl)
  have hrequest := hparent.pushOpt (given p.requestId) (containing .requestId)
    (fun _ ↦ (rfl : " AND RequestId LIKE ? ESCAPE '\\'" = _)) (fun _ ↦ rfl)
  have hkey := hrequest.pushOpt (given p.apikey) (equalText .apiKey)
    (fun _ ↦ (rfl : " AND ApiKey = ?" = _)) (fun _ ↦ rfl)
  have herrors := hkey.pushErrors p.errorMode
  rw [buildFiltersSql, filterParts]
  cases p.search with
  | none => exact (List.append_nil _).symm ▸ herrors
  | some v => exact herrors.pushSearch f v

def whereParts (f : TextFunctions) (p : FilterParams) (cursor : Option CursorKey)
    (shardId : String) : List (Clause Column) :=
  filterParts f p ++ parts cursor fun c ↦ [cursorPart shardId c]

theorem asks_dataWhere (f : TextFunctions) (p : FilterParams) (cursor : Option CursorKey)
    (shardId : String) : (dataWhere f p cursor shardId).Asks (whereParts f p cursor shardId) := by
  have hfilters := asks_buildFiltersSql f p
  rw [dataWhere, whereParts]
  cases cursor with
  | none => exact (List.append_nil _).symm ▸ hfilters
  | some c =>
    obtain ⟨timeMs, id, shard⟩ := c
    cases shard with
    | none => exact hfilters.pushOne _ rfl rfl
    | some shard => exact hfilters.pushOne _ rfl rfl

section Meaning

variable {f : TextFunctions} {row : Record Fields}

theorem keeps_equalText {col : Column} {v : Text} {value : Option Text}
    (hcol : row.values col = ofText value) :
    (equalText col v).Keeps f.functions row.values ↔ value.any (v == ·) = true := by
  have heval : (equalText col v).cond.eval f.functions row.values (equalText col v).binds =
      compareValues id .eq (row.values col) (.text v) := rfl
  rw [Clause.Keeps, heval, hcol]
  cases value with
  | none => simp [ofText, compareValues]
  | some s =>
    simp only [ofText, compareValues, Op.holds, Option.elim_some, id, Option.any_some,
      Option.some.injEq, Bool.and_eq_true, Bool.not_eq_true', decide_eq_false_iff_not, beq_iff_eq]
    constructor
    · rintro ⟨hle, hge⟩
      exact le_antisymm (not_lt.mp hle) (not_lt.mp hge)
    · rintro rfl
      exact ⟨lt_irrefl v, lt_irrefl v⟩

theorem keeps_compared {col : Column} {op : Op} {n : ℤ} {value : Option ℤ}
    (hcol : row.values col = ofInt value) :
    (compared col op n).Keeps f.functions row.values ↔
      value.any (fun m ↦ op.holds (m < n) (n < m)) = true := by
  have heval : (compared col op n).cond.eval f.functions row.values (compared col op n).binds =
      compareValues id op (row.values col) (.int n) := rfl
  rw [Clause.Keeps, heval, hcol]
  cases value with
  | none => simp [ofInt, compareValues]
  | some m => simp [ofInt, compareValues]

theorem keeps_ranged {col : Column} {v : Text} {value : Option Text}
    (hcol : row.values col = ofText value) (hplain : ∀ s ∈ value, maxChar ∉ s) :
    (∀ clause ∈ ranged col v, clause.Keeps f.functions row.values) ↔
      value.any (startsWith v) = true := by
  have hevals : (∀ clause ∈ ranged col v, clause.Keeps f.functions row.values) ↔
      compareValues asciiFold .ge (row.values col) (.text v) = some true ∧
        compareValues asciiFold .lt (row.values col) (.text (prefixUpper v)) = some true := by
    simp [ranged, Clause.Keeps, Cond.eval, TextFunctions.functions]
  rw [hevals, hcol]
  cases value with
  | none => simp [ofText, compareValues]
  | some s =>
    rw [Option.any_some, startsWith, decide_eq_true_iff,
      ← nocaseRange_iff_startsWith (hplain s rfl) v]
    simp [ofText, compareValues, Op.holds, nocaseRange]

theorem keeps_containing {col : Column} {v : Text} {value : Option Text}
    (hcol : row.values col = ofText value) :
    (containing col v).Keeps f.functions row.values ↔ value.any (contains v) = true := by
  have heval : (containing col v).cond.eval f.functions row.values (containing col v).binds =
      onTexts (fun s pattern ↦ like pattern s) (row.values col) (.text (likeContains v)) := rfl
  rw [Clause.Keeps, heval, hcol]
  cases value with
  | none => simp [ofText, onTexts]
  | some s =>
    rw [Option.any_some, contains, decide_eq_true_iff, ← like_likeContains v s]
    simp [ofText, onTexts]

theorem keeps_failed :
    failed.Keeps f.functions row.values ↔ row.data.status.any (400 ≤ ·) = true := by
  have heval : failed.cond.eval f.functions row.values failed.binds =
      compareValues id .ge (ofInt row.data.status) (.int 400) := rfl
  rw [Clause.Keeps, heval]
  cases row.data.status with
  | none => simp [ofInt, compareValues]
  | some m => simp [ofInt, compareValues, Op.holds]

theorem keeps_searchParts {v : Text} :
    (∀ clause ∈ searchParts f v, clause.Keeps f.functions row.values) ↔
      row.data.searchText.any (hasText f v) = true := by
  by_cases hlong : 2 ≤ v.length
  · have hsearch : (searching v).Keeps f.functions row.values ↔
        row.data.searchText.any (f.ftsMatch · (ftsQuery v)) = true := by
      have heval : (searching v).cond.eval f.functions row.values (searching v).binds =
          onTexts f.ftsMatch (ofText row.data.searchText) (.text (ftsQuery v)) := rfl
      rw [Clause.Keeps, heval]
      cases row.data.searchText <;> simp [ofText, onTexts]
    have hterm : ∀ term, (lowerContaining term).Keeps f.functions row.values ↔
        row.data.searchText.any (fun s ↦ decide (term <:+: f.lower s)) = true := by
      intro term
      have heval : (lowerContaining term).cond.eval f.functions row.values
          (lowerContaining term).binds =
          onTexts (fun s t ↦ decide (t <:+: f.lower s)) (ofText row.data.searchText)
            (.text term) := rfl
      rw [Clause.Keeps, heval]
      cases row.data.searchText <;> simp [ofText, onTexts]
    rw [searchParts, if_pos hlong, List.forall_mem_cons, hsearch, List.forall_mem_map]
    simp only [hterm]
    cases row.data.searchText with
    | none => simp
    | some s => simp [hasText, hlong]
  · rw [searchParts, if_neg hlong, List.forall_mem_singleton, keeps_containing rfl]
    cases row.data.searchText with
    | none => simp
    | some s => simp [hasText, hlong]

theorem keeps_parts {β γ : Type} {value : Option β} {pieces : β → List (Clause Column)}
    {test : β → γ → Bool} {field : Option γ}
    (h : ∀ v ∈ value, (∀ clause ∈ pieces v, clause.Keeps f.functions row.values) ↔
      field.any (test v) = true) :
    (∀ clause ∈ parts value pieces, clause.Keeps f.functions row.values) ↔
      meets value test field = true := by
  cases value with
  | none => simp [parts, meets]
  | some v => exact h v rfl

theorem keeps_part {β γ : Type} {value : Option β} {piece : β → Clause Column}
    {test : β → γ → Bool} {field : Option γ}
    (h : ∀ v, (piece v).Keeps f.functions row.values ↔ field.any (test v) = true) :
    (∀ clause ∈ parts value (fun v ↦ [piece v]), clause.Keeps f.functions row.values) ↔
      meets value test field = true :=
  keeps_parts fun v _ ↦ by rw [List.forall_mem_singleton, h]

theorem keeps_from {v : ℤ} : (compared .timeMs .ge v).Keeps f.functions row.values ↔
    row.timeMs.any (fun m ↦ decide (v ≤ m)) = true := by
  rw [keeps_compared rfl]
  simp only [Op.holds, ← decide_not, not_lt]

theorem keeps_to {v : ℤ} : (compared .timeMs .le v).Keeps f.functions row.values ↔
    row.timeMs.any (fun m ↦ decide (m ≤ v)) = true := by
  rw [keeps_compared rfl]
  simp only [Op.holds, ← decide_not, not_lt]

theorem keeps_status {v : ℤ} : (compared .status .eq v).Keeps f.functions row.values ↔
    row.data.status.any (v == ·) = true := by
  rw [keeps_compared rfl]
  cases row.data.status with
  | none => simp
  | some m =>
    simp only [Op.holds, Option.any_some, Bool.and_eq_true, Bool.not_eq_true',
      decide_eq_false_iff_not, beq_iff_eq]
    omega

theorem keeps_clientParts {client : Option Text} :
    (∀ clause ∈ parts client (fun v ↦ [(containing .clientName v).or (containing .userAgent v)]),
      clause.Keeps f.functions row.values) ↔
      client.all (fun v ↦
        row.data.clientName.any (contains v) || row.data.userAgent.any (contains v)) = true := by
  cases client with
  | none => simp [parts]
  | some v =>
    rw [parts, Option.elim_some, List.forall_mem_singleton, Clause.keeps_or,
      keeps_containing rfl, keeps_containing rfl, Option.all_some, Bool.or_eq_true]

theorem keeps_errorParts {errorMode : Bool} :
    (∀ clause ∈ if errorMode then [failed] else [], clause.Keeps f.functions row.values) ↔
      (!errorMode || row.data.status.any (400 ≤ ·)) = true := by
  cases errorMode with
  | true => simp [keeps_failed]
  | false => simp

theorem keeps_before {cursor : CursorKey} :
    (placed .lt cursor).Keeps f.functions row.values ↔
      row.timeMs.any (fun t ↦ decide (toLex (t, row.id) < toLex (cursor.timeMs, cursor.id))) =
        true := by
  have heval : (placed .lt cursor).cond.eval f.functions row.values (placed .lt cursor).binds =
      or3 (compareValues id .lt (ofInt row.timeMs) (.int cursor.timeMs))
        (and3 (compareValues id .eq (ofInt row.timeMs) (.int cursor.timeMs))
          (compareValues id .lt (.int row.id) (.int cursor.id))) := rfl
  rw [Clause.Keeps, heval, or3_eq_true, and3_eq_true]
  cases row.timeMs with
  | none => simp [ofInt, compareValues]
  | some t =>
    simp only [ofInt, compareValues, Op.holds, Option.elim_some, Option.any_some,
      decide_eq_true_iff, Option.some.injEq, Bool.and_eq_true, Bool.not_eq_true',
      decide_eq_false_iff_not, not_lt, Prod.Lex.toLex_lt_toLex]
    constructor
    · rintro (hlt | ⟨⟨hle, hge⟩, hid⟩)
      · exact .inl hlt
      · exact .inr ⟨by omega, hid⟩
    · rintro (hlt | ⟨heq, hid⟩)
      · exact .inl hlt
      · exact .inr ⟨⟨heq.ge, heq.le⟩, hid⟩

theorem keeps_same {cursor : CursorKey} :
    (placed .eq cursor).Keeps f.functions row.values ↔
      row.timeMs.any (fun t ↦ decide ((t, row.id) = (cursor.timeMs, cursor.id))) = true := by
  have heval : (placed .eq cursor).cond.eval f.functions row.values (placed .eq cursor).binds =
      and3 (compareValues id .eq (ofInt row.timeMs) (.int cursor.timeMs))
        (compareValues id .eq (.int row.id) (.int cursor.id)) := rfl
  rw [Clause.Keeps, heval, and3_eq_true]
  cases row.timeMs with
  | none => simp [ofInt, compareValues]
  | some t =>
    simp only [ofInt, compareValues, Op.holds, Option.elim_some, Option.any_some,
      decide_eq_true_iff, Option.some.injEq, Bool.and_eq_true, Bool.not_eq_true',
      decide_eq_false_iff_not, not_lt, Prod.mk.injEq]
    omega

theorem keeps_cursorPart {shardId : String} {cursor : CursorKey} :
    (cursorPart shardId cursor).Keeps f.functions row.values ↔
      cursorWhere cursor shardId row = true := by
  obtain ⟨timeMs, id, shard⟩ := cursor
  cases shard with
  | none => exact keeps_before
  | some cursorShard =>
    have hless : Clause.Keeps f.functions row.values
        ⟨.isOne, [.int (if shardId < cursorShard then 1 else 0)], rfl⟩ ↔
        shardId < cursorShard := by
      have heval : ∀ n : ℤ, Clause.Keeps f.functions row.values ⟨.isOne, [.int n], rfl⟩ ↔
          n = 1 := by
        intro n
        simp only [Clause.Keeps, Cond.eval, compareValues, Op.holds, List.getD_cons_zero,
          Option.some.injEq, Bool.and_eq_true, Bool.not_eq_true', decide_eq_false_iff_not, not_lt]
        omega
      rw [heval]
      split <;> simp_all
    rw [cursorPart, Clause.keeps_or, Clause.keeps_and, keeps_before, keeps_same, hless, cursorWhere]
    cases row.timeMs <;> simp

theorem keeps_filterParts (p : FilterParams) (hmodel : ∀ s ∈ row.data.model, maxChar ∉ s)
    (hip : ∀ s ∈ row.data.ip, maxChar ∉ s) :
    (∀ clause ∈ filterParts f p, clause.Keeps f.functions row.values) ↔
      buildFilters (p.listParams f) row = true := by
  have hranged : ∀ (filter : Option Text) (col : Column) (value : Option Text),
      row.values col = ofText value → (∀ s ∈ value, maxChar ∉ s) →
      ((∀ clause ∈ parts filter (ranged col), clause.Keeps f.functions row.values) ↔
        meets filter startsWith value = true) :=
    fun filter col value hcol hplain ↦ keeps_parts fun v _ ↦ keeps_ranged hcol hplain
  have hequal : ∀ (filter : Option Text) (col : Column) (value : Option Text),
      row.values col = ofText value →
      ((∀ clause ∈ parts filter (fun v ↦ [equalText col v]),
        clause.Keeps f.functions row.values) ↔ meets filter (· == ·) value = true) :=
    fun filter col value hcol ↦ keeps_part fun v ↦ keeps_equalText hcol
  have hcontains : ∀ (filter : Option Text) (col : Column) (value : Option Text),
      row.values col = ofText value →
      ((∀ clause ∈ parts filter (fun v ↦ [containing col v]),
        clause.Keeps f.functions row.values) ↔ meets filter contains value = true) :=
    fun filter col value hcol ↦ keeps_part fun v ↦ keeps_containing hcol
  simp only [filterParts, List.forall_mem_append, keeps_part fun v ↦ keeps_from,
    keeps_part fun v ↦ keeps_to, keeps_part fun v ↦ keeps_status, keeps_clientParts,
    keeps_errorParts, hequal _ .type _ rfl, hequal _ .backend _ rfl, hequal _ .apiKey _ rfl,
    hcontains _ .sessionId _ rfl, hcontains _ .parentSessionId _ rfl, hcontains _ .requestId _ rfl,
    hranged _ .model _ rfl hmodel, hranged _ .ip _ rfl hip, keeps_parts fun v _ ↦ keeps_searchParts]
  simp only [buildFilters, FilterParams.listParams, FilterParams.wants, meets, Bool.and_eq_true,
    and_assoc]

end Meaning

def conditions : List (Cond Column) :=
  [.cmp .timeMs false .ge, .cmp .timeMs false .le, .cmp .type false .eq, .cmp .model true .ge,
    .cmp .model true .lt, .cmp .status false .eq, .cmp .backend false .eq, .cmp .ip true .ge,
    .cmp .ip true .lt, .or (.like .clientName) (.like .userAgent), .like .sessionId,
    .like .parentSessionId, .like .requestId, .cmp .apiKey false .eq, .atLeast .status 400,
    .search .searchText, .instrLower .searchText, .like .searchText, .pair .timeMs .id .lt,
    .or (.pair .timeMs .id .lt) (.and (.pair .timeMs .id .eq) .isOne)]

theorem forall_mem_parts {β : Type} {value : Option β} {pieces : β → List (Clause Column)}
    (h : ∀ v, ∀ clause ∈ pieces v, clause.cond ∈ conditions) :
    ∀ clause ∈ parts value pieces, clause.cond ∈ conditions := by
  cases value with
  | none => exact fun _ hmem ↦ absurd hmem List.not_mem_nil
  | some v => exact h v

theorem cond_mem_conditions (f : TextFunctions) (p : FilterParams) (cursor : Option CursorKey)
    (shardId : String) : ∀ clause ∈ whereParts f p cursor shardId, clause.cond ∈ conditions := by
  have hsearch : ∀ v, ∀ clause ∈ searchParts f v, clause.cond ∈ conditions := by
    intro v
    rw [searchParts]
    split
    · rw [List.forall_mem_cons, List.forall_mem_map]
      exact ⟨by simp [searching, conditions], fun _ _ ↦ by simp [lowerContaining, conditions]⟩
    · simp [containing, conditions]
  have hcursor : ∀ c, ∀ clause ∈ [cursorPart shardId c], clause.cond ∈ conditions := by
    rintro ⟨timeMs, id, shard⟩
    rw [List.forall_mem_singleton]
    cases shard <;> simp [cursorPart, placed, Clause.or, Clause.and, conditions]
  have herrors : ∀ clause ∈ if p.errorMode then [failed] else [], clause.cond ∈ conditions := by
    cases p.errorMode <;> simp [failed, conditions]
  simp only [whereParts, filterParts, List.forall_mem_append]
  refine ⟨⟨⟨⟨⟨⟨⟨⟨⟨⟨⟨⟨⟨⟨?_, ?_⟩, ?_⟩, ?_⟩, ?_⟩, ?_⟩, ?_⟩, ?_⟩, ?_⟩, ?_⟩, ?_⟩, ?_⟩, herrors⟩,
    forall_mem_parts hsearch⟩, forall_mem_parts hcursor⟩ <;>
    exact forall_mem_parts fun v ↦ by
      simp [compared, equalText, ranged, containing, Clause.or, conditions]

/-- The `WHERE` that a shard is read with is made of the program's own conditions alone, binds one
value to each parameter, and keeps the rows that the filters and the cursor ask for. -/
theorem where_selects (f : TextFunctions) (p : FilterParams) (cursor : Option CursorKey)
    (shard : Shard Fields)
    (hmodel : ∀ row ∈ shard.rows, ∀ s ∈ row.data.model, maxChar ∉ s)
    (hip : ∀ row ∈ shard.rows, ∀ s ∈ row.data.ip, maxChar ∉ s) :
    ∃ clauses : List (Clause Column),
      (∀ clause ∈ clauses, clause.cond ∈ conditions) ∧
        (dataWhere f p cursor shard.id).Asks clauses ∧
        questionMarks (dataWhere f p cursor shard.id).1 = (dataWhere f p cursor shard.id).2.length ∧
        (shard.rows.filter fun row ↦ (Clause.always.all clauses).Keeps f.functions row.values) =
          matchingRows (p.listParams f) cursor shard := by
  have hasks := asks_dataWhere f p cursor shard.id
  refine ⟨whereParts f p cursor shard.id, cond_mem_conditions f p cursor shard.id, hasks, ?_, ?_⟩
  · rw [hasks.1, hasks.2, questionMarks_append, Clause.questionMarks_text]
    exact Nat.zero_add _
  · rw [matchingRows]
    refine List.filter_congr fun row hrow ↦ ?_
    have hkeeps : (Clause.always.all (whereParts f p cursor shard.id)).Keeps f.functions
        row.values ↔ (buildFilters (p.listParams f) row &&
          cursor.all fun c ↦ cursorWhere c shard.id row) = true := by
      rw [Clause.keeps_all, whereParts, List.forall_mem_append,
        keeps_filterParts p (hmodel row hrow) (hip row hrow), Bool.and_eq_true]
      cases cursor with
      | none => simp [parts, Clause.keeps_always]
      | some c => simp [parts, Clause.keeps_always, keeps_cursorPart]
    exact Bool.eq_iff_iff.mpr (decide_eq_true_iff.trans hkeeps)

def asciiFunctions : TextFunctions where
  lower := asciiFold
  toLowercase := asciiFold
  ftsMatch s query := contains query s

def twoModels : Shard Fields where
  id := "active"
  rows := [⟨1, some 5, { model := some ['g', 'p', 't'], searchText := some ['h', 'i'] }⟩,
    ⟨2, some 5, { model := some ['o', '1'], searchText := some ['H', 'i'] }⟩]
  nodup := by decide
  ids := by decide
  times := by decide

theorem where_selects_gpt :
    (∀ row ∈ twoModels.rows, ∀ s ∈ row.data.model, maxChar ∉ s) ∧
      (∀ row ∈ twoModels.rows, ∀ s ∈ row.data.ip, maxChar ∉ s) ∧
      ∃ clauses : List (Clause Column),
        (∀ clause ∈ clauses, clause.cond ∈ conditions) ∧
          (dataWhere asciiFunctions { model := some ['G'], q := some ['h', 'I'] }
            (some ⟨5, 9, none⟩) "active").Asks clauses ∧
          questionMarks (dataWhere asciiFunctions { model := some ['G'], q := some ['h', 'I'] }
              (some ⟨5, 9, none⟩) "active").1 =
            (dataWhere asciiFunctions { model := some ['G'], q := some ['h', 'I'] }
              (some ⟨5, 9, none⟩) "active").2.length ∧
          (twoModels.rows.filter fun row ↦
              (Clause.always.all clauses).Keeps asciiFunctions.functions row.values) =
            matchingRows (FilterParams.listParams asciiFunctions
              { model := some ['G'], q := some ['h', 'I'] }) (some ⟨5, 9, none⟩) twoModels :=
  ⟨by decide, by decide, where_selects asciiFunctions { model := some ['G'], q := some ['h', 'I'] }
    (some ⟨5, 9, none⟩) twoModels (by decide) (by decide)⟩

end QueQiao.RecordsQuery
