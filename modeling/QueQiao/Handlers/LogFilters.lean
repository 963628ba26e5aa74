import QueQiao.Db.TextFilters
import QueQiao.Handlers.AnalysisApi
import QueQiao.Handlers.LogScan

namespace QueQiao.ErrorLogScan

open ErrorLogApi Lib.Delimiters RecordsQuery

/-- The columns of a record that are compared with the filters of an entry. -/
structure RecordColumns where
  type : Option String
  model : Option Text
  status : Option ℤ
  backend : Option Text
  ip : Option Text
  clientName : Option Text
  userAgent : Option Text
  apiKey : Option Text

/-- The conditions that `build_filters` makes of these filters. A comparison with a `NULL` holds
of no row. -/
def fieldFilters (p : ListParams) (row : RecordColumns) : Bool :=
  (given p.type).all (fun v ↦ row.type = some (String.ofList v)) &&
  (given p.model).all (fun v ↦ row.model.any (nocaseRange v)) &&
  p.status.all (fun v ↦ row.status = some v) &&
  (given p.backend).all (fun v ↦ row.backend = some v) &&
  (given p.ip).all (fun v ↦ row.ip.any (nocaseRange v)) &&
  (given p.client).all (fun v ↦
    row.clientName.any (like (likeContains v)) || row.userAgent.any (like (likeContains v))) &&
  (given p.apikey).all (fun v ↦ row.apiKey = some v) &&
  (!p.errors.any (fun v ↦ v = ['1'] || v.map Char.toLower = "true".toList) ||
    row.status.any (400 ≤ ·))

def recordOf (e : LogEntry) (clientName : Option Text) : RecordColumns where
  type := e.path.bind logTypeLabel
  model := e.model
  status := e.status
  backend := e.backend
  ip := e.ip
  clientName := clientName
  userAgent := e.userAgent
  apiKey := e.apiKey

/-- The filters that are compared without regard to case are left out. -/
def exactFilters (e : LogEntry) (p : ListParams) : Bool :=
  (given p.apikey).all (fun v ↦ e.apiKey = some v) &&
  p.status.all (fun v ↦ e.status = some v) &&
  (given p.backend).all (fun v ↦ e.backend = some v) &&
  (given p.type).all (fun v ↦ e.path.any fun path ↦ logTypeLabel path = some (String.ofList v)) &&
  (!p.errors.any (fun v ↦ v = ['1'] || v.map Char.toLower = "true".toList) ||
    e.status.any (400 ≤ ·))

/-- The filters on the model, the IP and the client, for a way to compare texts. -/
def textFilters (starts contains : Text → Text → Bool) (e : LogEntry) (p : ListParams) : Bool :=
  (given p.model).all (fun v ↦ e.model.any (starts v)) &&
  (given p.ip).all (fun v ↦ e.ip.any (starts v)) &&
  (given p.client).all (fun v ↦ contains v (e.userAgent.getD []))

section Analysis

open AnalysisApi (AnalysisParams Row hasPrefix foldCase)

def columnsOf (r : Row) : RecordColumns where
  type := r.type
  model := r.model.map String.toList
  status := r.status
  backend := r.backend.map String.toList
  ip := r.ip.map String.toList
  clientName := r.clientName.map String.toList
  userAgent := r.userAgent.map String.toList
  apiKey := r.apiKey.map String.toList

/-- The filters of an analysis that `build_filters` compares with columns. -/
def filtersOf (p : AnalysisParams) : ListParams where
  model := p.model.map String.toList
  ip := p.ip.map String.toList
  apikey := p.apikey.map String.toList
  status := p.status
  backend := p.backend.map String.toList
  client := p.client.map String.toList
  type := p.type.map String.toList
  errors := p.errors.map String.toList

theorem toList_foldCase (s : String) : (foldCase s).toList = asciiFold s.toList := String.toList_ofList

theorem hasPrefix_eq (v : String) (column : Option String) :
    hasPrefix v column = (column.map String.toList).any (nocaseRange v.toList) := by
  have hrange (s : String) : (!decide (foldCase s < foldCase v) &&
      decide (foldCase s < foldCase (AnalysisApi.prefixUpper v))) = nocaseRange v.toList s.toList := by
    have hupper : (AnalysisApi.prefixUpper v).toList = prefixUpper v.toList := String.toList_push _
    rw [nocaseRange, ← decide_not]
    simp only [String.lt_iff_toList_lt, toList_foldCase, hupper, not_lt]
  rw [hasPrefix, Option.any_map]
  exact congrArg (Option.any · column) (funext hrange)

theorem likeContains_eq (v : String) (column : Option String) :
    AnalysisApi.likeContains v column =
      (column.map String.toList).any (like (likeContains v.toList)) := by
  rw [AnalysisApi.likeContains, Option.any_map]
  refine congrArg (Option.any · column) (funext fun s ↦ ?_)
  rw [Bool.eq_iff_iff, decide_eq_true_iff, toList_foldCase, toList_foldCase]
  exact (like_likeContains v.toList s.toList).symm

theorem given_map_toList (value : Option String) :
    given (value.map String.toList) = (AnalysisApi.given value).map String.toList := by
  rw [given, AnalysisApi.given, Option.filter_map]
  congr 2
  funext v
  simp

theorem map_toList_eq_iff {column : Option String} {v : String} :
    column.map String.toList = some v.toList ↔ column = some v := by
  rw [← Option.map_some]
  exact (Option.map_injective fun _ _ ↦ String.toList_inj.mp).eq_iff

theorem matches_eq_fieldFilters (p : AnalysisParams) (r : Row) :
    p.matches r = fieldFilters (filtersOf p) (columnsOf r) := by
  have herror (v : String) : (decide (v = "1") || decide (foldCase v = "true")) =
      (decide (v.toList = ['1']) || decide (v.toList.map Char.toLower = "true".toList)) := by
    have hone : v = "1" ↔ v.toList = ['1'] := String.toList_inj.symm
    have htrue : foldCase v = "true" ↔ v.toList.map Char.toLower = "true".toList := by
      rw [← String.toList_inj, toList_foldCase]
      rfl
    simp only [hone, htrue]
  have herrors : p.errorMode = (p.errors.map String.toList).any
      fun v ↦ decide (v = ['1']) || decide (v.map Char.toLower = "true".toList) := by
    rw [AnalysisParams.errorMode, Option.any_map]
    exact congrArg (Option.any · p.errors) (funext herror)
  simp only [AnalysisParams.matches, fieldFilters, filtersOf, columnsOf, given_map_toList,
    Option.all_map, hasPrefix_eq, likeContains_eq, map_toList_eq_iff, String.ofList_toList, herrors]
  rfl

end Analysis

section Readings

variable (chrono : Chrono)

def startsUnicode (v s : Text) : Bool := chrono.lowercase v <+: chrono.lowercase s

def containsUnicode (v s : Text) : Bool := chrono.lowercase v <:+: chrono.lowercase s

def startsAscii (v s : Text) : Bool :=
  decide (asciiFold v <+: asciiFold s) && (asciiFold s)[v.length]? ≠ some maxChar

def containsAscii (v s : Text) : Bool := asciiFold v <:+: asciiFold s

theorem nocaseRange_eq (v s : Text) : nocaseRange v s = startsAscii v s := by
  rw [Bool.eq_iff_iff, nocaseRange_iff, startsAscii, Bool.and_eq_true, decide_eq_true_iff,
    decide_eq_true_iff]
  have hlength : (asciiFold v).length = v.length := List.length_map _
  constructor
  · intro ⟨rest, hs, hrest⟩
    refine ⟨⟨rest, hs.symm⟩, ?_⟩
    rwa [hs, ← hlength, List.getElem?_append_right le_rfl, Nat.sub_self, ← List.head?_eq_getElem?]
  · intro ⟨⟨rest, hs⟩, hrest⟩
    rw [← hs, ← hlength, List.getElem?_append_right le_rfl, Nat.sub_self,
      ← List.head?_eq_getElem?] at hrest
    exact ⟨rest, hs.symm, hrest⟩

theorem logEntryMatches_eq (e : LogEntry) (p : ListParams) :
    logEntryMatches chrono e p =
      (exactFilters e p && textFilters (startsUnicode chrono) (containsUnicode chrono) e p) := by
  have hclient (v : Text) :
      (findSub (chrono.lowercase v) (chrono.lowercase (e.userAgent.getD []))).isSome =
        containsUnicode chrono v (e.userAgent.getD []) := by
    rw [Bool.eq_iff_iff, isSome_findSub_iff, containsUnicode, decide_eq_true_iff]
  have hstarts (field : Option Text) :
      startsWithCi chrono field = fun v ↦ field.any (startsUnicode chrono v) := rfl
  simp only [logEntryMatches, hclient, hstarts, exactFilters, textFilters]
  ac_rfl

theorem client_eq {e : LogEntry} {name : Option Text} {v : Text} (hv : v ≠ [])
    (hname : ∀ n ∈ name, ∃ agent ∈ e.userAgent, n <:+: agent) :
    (name.any (like (likeContains v)) || e.userAgent.any (like (likeContains v))) =
      containsAscii v (e.userAgent.getD []) := by
  rw [Bool.eq_iff_iff, Bool.or_eq_true, containsAscii, decide_eq_true_iff]
  simp only [Option.any_eq_true, like_likeContains]
  constructor
  · intro h
    rcases h with ⟨n, hn, h⟩ | ⟨agent, hagent, h⟩
    · obtain ⟨agent, hagent, hpart⟩ := hname n hn
      rw [hagent]
      exact h.trans (hpart.map Char.toLower)
    · rw [hagent]
      exact h
  · intro h
    cases hagent : e.userAgent with
    | some agent =>
      rw [hagent] at h
      exact Or.inr ⟨agent, rfl, h⟩
    | none =>
      rw [hagent] at h
      exact absurd (List.map_eq_nil_iff.mp (List.infix_nil.mp h)) hv

theorem given_ne_nil {filter : Option Text} {v : Text} (h : v ∈ given filter) : v ≠ [] := by
  have hv := (Option.filter_eq_some_iff.mp h).2
  exact of_decide_eq_true hv

theorem fieldFilters_eq {e : LogEntry} {name : Option Text} (p : ListParams)
    (hname : ∀ n ∈ name, ∃ agent ∈ e.userAgent, n <:+: agent) :
    fieldFilters p (recordOf e name) =
      (exactFilters e p && textFilters startsAscii containsAscii e p) := by
  have hclient : (given p.client).all (fun v ↦
      name.any (like (likeContains v)) || e.userAgent.any (like (likeContains v))) =
        (given p.client).all fun v ↦ containsAscii v (e.userAgent.getD []) := by
    cases hgiven : given p.client with
    | none => rfl
    | some v => exact client_eq (given_ne_nil hgiven) hname
  have htype (v : Text) : decide ((recordOf e name).type = some (String.ofList v)) =
      e.path.any fun path ↦ decide (logTypeLabel path = some (String.ofList v)) := by
    rw [Bool.eq_iff_iff, decide_eq_true_iff, Option.any_eq_true]
    simp only [decide_eq_true_iff]
    exact Option.bind_eq_some_iff
  have hstarts (v : Text) : nocaseRange v = startsAscii v := funext (nocaseRange_eq v)
  simp only [fieldFilters, htype]
  simp only [recordOf, hclient, hstarts, exactFilters, textFilters]
  ac_rfl

/-- An entry and its record pass the same filters unless the filters on texts, where they
decide, hold of the texts of the entry in one reading of case alone. What a row with the columns of
that record passes in an analysis is the same as for the record. -/
theorem logEntryMatches_eq_fieldFilters_iff (e : LogEntry) (p : ListParams) {name : Option Text}
    (hname : ∀ n ∈ name, ∃ agent ∈ e.userAgent, n <:+: agent) :
    (logEntryMatches chrono e p = fieldFilters p (recordOf e name) ↔
      (exactFilters e p = true →
        textFilters (startsUnicode chrono) (containsUnicode chrono) e p =
          textFilters startsAscii containsAscii e p)) ∧
      ∀ (params : AnalysisApi.AnalysisParams) (r : AnalysisApi.Row), filtersOf params = p →
        columnsOf r = recordOf e name → params.matches r = fieldFilters p (recordOf e name) := by
  refine ⟨?_, fun params r hparams hr ↦ ?_⟩
  · rw [logEntryMatches_eq, fieldFilters_eq p hname]
    cases exactFilters e p <;> simp
  · rw [matches_eq_fieldFilters, hparams, hr]

end Readings

section Ascii

def IsAscii (s : Text) : Prop := ∀ c ∈ s, c.toNat < 128

theorem toNat_toLower {c : Char} (hc : c.toNat < 128) : c.toLower.toNat < 128 := by
  delta Char.toLower
  split
  · rename_i hupper
    have hle : c.val.toNat ≤ 90 := hupper.2
    change (c.val.toNat + 32) % 4294967296 < 128
    omega
  · exact hc

theorem maxChar_not_mem {s : Text} (hs : IsAscii s) : maxChar ∉ asciiFold s := by
  intro h
  obtain ⟨c, hc, hlower⟩ := List.mem_map.mp h
  have hlt := toNat_toLower (hs c hc)
  rw [hlower] at hlt
  exact absurd hlt (by decide)

variable {chrono : Chrono}

theorem logEntryMatches_of_ascii (hlower : ∀ s, IsAscii s → chrono.lowercase s = asciiFold s)
    {e : LogEntry} {p : ListParams} {name : Option Text}
    (hname : ∀ n ∈ name, ∃ agent ∈ e.userAgent, n <:+: agent)
    (hfields : ∀ field ∈ [e.model, e.ip, e.userAgent], ∀ s ∈ field, IsAscii s)
    (hfilters : ∀ filter ∈ [p.model, p.ip, p.client], ∀ v ∈ filter, IsAscii v) :
    logEntryMatches chrono e p = fieldFilters p (recordOf e name) := by
  have hstarts {field filter : Option Text} (hfield : ∀ s ∈ field, IsAscii s)
      (hfilter : ∀ v ∈ filter, IsAscii v) :
      (given filter).all (fun v ↦ field.any (startsUnicode chrono v)) =
        (given filter).all fun v ↦ field.any (startsAscii v) := by
    cases hgiven : given filter with
    | none => rfl
    | some v =>
      cases hf : field with
      | none => rfl
      | some s =>
        have hs := hfield s hf
        have hv := hfilter v (Option.filter_eq_some_iff.mp hgiven).1
        have hmax : (asciiFold s)[v.length]? ≠ some maxChar := fun h ↦
          maxChar_not_mem hs (List.mem_of_getElem? h)
        simp [startsUnicode, startsAscii, hlower s hs, hlower v hv, hmax]
  have hcontains : (given p.client).all
      (fun v ↦ containsUnicode chrono v (e.userAgent.getD [])) =
        (given p.client).all fun v ↦ containsAscii v (e.userAgent.getD []) := by
    have hagent : IsAscii (e.userAgent.getD []) := by
      cases hf : e.userAgent with
      | none => exact fun c hc ↦ absurd hc List.not_mem_nil
      | some s => exact hfields _ (by simp) s hf
    cases hgiven : given p.client with
    | none => rfl
    | some v =>
      have hv := hfilters p.client (by simp) v (Option.filter_eq_some_iff.mp hgiven).1
      simp [containsUnicode, containsAscii, hlower _ hagent, hlower v hv]
  rw [logEntryMatches_eq, fieldFilters_eq p hname, textFilters, textFilters, hcontains,
    hstarts (hfields e.model (by simp)) (hfilters p.model (by simp)),
    hstarts (hfields e.ip (by simp)) (hfilters p.ip (by simp))]

end Ascii

section Accented

def latinLower (c : Char) : Char :=
  if 'À' ≤ c ∧ c ≤ 'Þ' ∧ c ≠ '×' then Char.ofNat (c.toNat + 32) else c.toLower

def latinChrono : Chrono := { utcChrono with lowercase := fun s ↦ s.map latinLower }

def accentedEntry : LogEntry where
  kind := "http_error"
  model := some "ÉTOILE-7B".toList
  status := some 502
  userAgent := some "curl/8.5".toList

theorem logEntryMatches_eq_fieldFilters_iff_curl :
    logEntryMatches latinChrono accentedEntry { client := some "CURL".toList } =
        fieldFilters { client := some "CURL".toList }
          (recordOf accentedEntry (some "curl".toList)) ↔
      (exactFilters accentedEntry { client := some "CURL".toList } = true →
        textFilters (startsUnicode latinChrono) (containsUnicode latinChrono) accentedEntry
            { client := some "CURL".toList } =
          textFilters startsAscii containsAscii accentedEntry { client := some "CURL".toList }) :=
  (logEntryMatches_eq_fieldFilters_iff latinChrono accentedEntry { client := some "CURL".toList }
    (by
      intro n hn
      rw [Option.mem_some_iff] at hn
      exact ⟨"curl/8.5".toList, rfl, [], "/8.5".toList, by rw [← hn]; decide⟩)).1

theorem accented_model_in_log_only :
    logEntryMatches latinChrono accentedEntry { model := some "étoile".toList } = true ∧
      fieldFilters { model := some "étoile".toList } (recordOf accentedEntry none) = false ∧
      ¬ ∀ (e : LogEntry) (p : ListParams) (name : Option Text),
        (∀ n ∈ name, ∃ agent ∈ e.userAgent, n <:+: agent) →
          logEntryMatches latinChrono e p = fieldFilters p (recordOf e name) := by
  have hlog : logEntryMatches latinChrono accentedEntry
      { model := some "étoile".toList } = true := by decide +kernel
  have hdb : fieldFilters { model := some "étoile".toList } (recordOf accentedEntry none) = false := by
    decide +kernel
  refine ⟨hlog, hdb, fun h ↦ ?_⟩
  have heq := h accentedEntry { model := some "étoile".toList } none (by simp)
  rw [hlog, hdb] at heq
  cases heq

end Accented

end QueQiao.ErrorLogScan
