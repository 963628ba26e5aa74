import QueQiao.Metrics.RequestCount
import QueQiao.Middleware.AccessLog

namespace QueQiao.RequestRun

open AccessLog CommonHandler Dispatcher ErrorLogApi StreamHandler StreamLoggers

variable {env : Env}

section Records

theorem failure_status (outcome : StreamOutcome) (sawTerminal : Bool) :
    400 ≤ (outcomeToStatus outcome sawTerminal).1 ↔
      outcome = .upstreamError ∨ (outcome ≠ .completed ∧ sawTerminal = false) := by
  cases outcome <;> cases sawTerminal <;> decide

/-- The task of chat and text completions writes a record, of a stream that did not complete. -/
def ChatFails (outcome : StreamOutcome) (chunks : List Json) : Prop :=
  ChatLogs outcome chunks ∧ outcome ≠ .completed

def MessagesFail (serdeFromStr : String → Option Json) (outcome : StreamOutcome)
    (received : List String) : Prop :=
  ∃ acc stop, receiveMessages serdeFromStr {} received = some (acc, stop) ∧
    (acc.hasContent = true ∨ outcome = .upstreamError) ∧
    (outcome = .upstreamError ∨ (outcome ≠ .completed ∧ stop = false))

def StreamFails (env : Env) (payload : RequestPayload) (client : ClientConfig)
    (run : StreamRun) : Prop :=
  match payload with
  | .responses _ => run.outcome = .upstreamError
  | .anthropicMessages _ =>
    MessagesFail env.texts.serdeFromStr (run.outcomeRead env.texts.serdeFromStr)
      (sentData run.items)
  | _ =>
    let s := run.chatState env.texts (streamConfig env.config client payload)
    ChatFails (atEnd run.ended s.outcome) (chunks env.texts.serdeFromStr (s.logged.map chunkStr))

/-- At most one record, which has an error status exactly under the condition. -/
def OneRecord (fails : Prop) (records : List AuditRecord) : Prop :=
  records.length ≤ 1 ∧ ((∃ r ∈ records, 400 ≤ r.status) ↔ fails)

theorem oneRecord_nil {fails : Prop} (h : ¬fails) : OneRecord fails [] :=
  ⟨Nat.zero_le _, by simp [h]⟩

theorem oneRecord_singleton {fails : Prop} {args : LoggerArgs} {outcome : StreamOutcome}
    {sawTerminal : Bool}
    (h : (outcome = .upstreamError ∨ (outcome ≠ .completed ∧ sawTerminal = false)) ↔ fails) :
    OneRecord fails [args.record (outcomeToStatus outcome sawTerminal)] := by
  refine ⟨Nat.le_refl 1, ?_⟩
  rw [← h, ← failure_status]
  simp [LoggerArgs.record]

variable (serdeFromStr : String → Option Json)

theorem streamLoggerTask_oneRecord (args : LoggerArgs) (outcome : StreamOutcome)
    (received : List String) :
    OneRecord (ChatFails outcome (chunks serdeFromStr received))
      (streamLoggerTask serdeFromStr args outcome received).records := by
  rcases streamLoggerTask_cases serdeFromStr args outcome received with
    ⟨hlogs, _, htask⟩ | ⟨hsilent, htask⟩
  · rw [htask]
    apply oneRecord_singleton
    rw [ChatFails, and_iff_right hlogs]
    cases outcome <;> decide
  · rw [htask]
    exact oneRecord_nil fun h ↦ hsilent h.1

theorem responsesStreamLoggerTask_oneRecord (args : LoggerArgs) (outcome : StreamOutcome)
    (received : List String) :
    OneRecord (outcome = .upstreamError)
      (responsesStreamLoggerTask serdeFromStr args outcome received).records := by
  rw [responsesStreamLoggerTask]
  split
  · rename_i hevent
    apply oneRecord_singleton
    constructor
    · rintro (h | ⟨-, hnone⟩)
      · exact h
      · rw [hnone, Bool.false_or, decide_eq_true_eq] at hevent
        exact hevent
    · exact .inl
  · rename_i hevent
    apply oneRecord_nil
    intro h
    exact hevent (by simp [h])

theorem anthropicStreamLoggerTask_oneRecord (args : LoggerArgs) (outcome : StreamOutcome)
    (received : List String) :
    OneRecord (MessagesFail serdeFromStr outcome received)
      (anthropicStreamLoggerTask serdeFromStr args outcome received).records := by
  rw [anthropicStreamLoggerTask, MessagesFail]
  cases receiveMessages serdeFromStr {} received with
  | none =>
    apply oneRecord_nil
    rintro ⟨_, _, h, _⟩
    cases h
  | some r =>
    dsimp only
    split
    · rename_i hevent
      rw [Bool.or_eq_true, decide_eq_true_eq] at hevent
      apply oneRecord_singleton
      constructor
      · intro h
        exact ⟨r.1, r.2, rfl, hevent, h⟩
      · rintro ⟨_, _, heq, _, h⟩
        cases heq
        exact h
    · rename_i hevent
      rw [Bool.or_eq_true, decide_eq_true_eq] at hevent
      apply oneRecord_nil
      rintro ⟨_, _, heq, h, _⟩
      cases heq
      exact hevent h

theorem streamEmitted_oneRecord (env : Env) (payload : RequestPayload) (client : ClientConfig) (elapsed : ℚ)
    (run : StreamRun) :
    OneRecord (StreamFails env payload client run)
      (streamEmitted env payload client elapsed run).records := by
  have hchat := streamLoggerTask_oneRecord env.texts.serdeFromStr
    (loggerArgs payload client elapsed)
    (atEnd run.ended (run.chatState env.texts (streamConfig env.config client payload)).outcome)
    ((run.chatState env.texts (streamConfig env.config client payload)).logged.map chunkStr)
  cases payload with
  | responses p => exact responsesStreamLoggerTask_oneRecord ..
  | anthropicMessages p => exact anthropicStreamLoggerTask_oneRecord ..
  | chat | completion | embedding | rerank | score | classify => exact hchat

end Records

/-- A request to a JSON endpoint, with what the logs add to it. -/
structure LoggedRequest (env : Env) where
  request : JsonRequest env
  fields : RequestFields
  interruptionFields : InterruptionFields
  unprintable : Char → Bool
  layer : FmtLayer

/-- The last attempt is a stream that leaves an audit record with an error status. -/
def FailsOnRecord : JsonRequest env → Prop
  | .refused _ | .invalid _ _ _ => False
  | .dispatched payload run => ∃ a c, run.met.getLast? = some (a, c) ∧
      upstream env.H payload.isStreaming c.exchange = .stream ∧
      StreamFails env (payload.setModel c.model) a.client c.stream

/-- The statuses of the lines into which the line feeds of a name cut the entry that has it. -/
def forgedStatuses (name : String) (entry : Text) : List ℤ :=
  if OneLine name then [] else statuses entry

namespace LoggedRequest

variable (logged : LoggedRequest env)

def failedRecords : List AuditRecord :=
  logged.request.emitted.records.filter fun r ↦ 400 ≤ r.status

def accessEntries : List Text :=
  (accessEntry logged.unprintable logged.fields logged.request.response).toList

def interruptionEntries : List Text :=
  logged.request.emitted.interruptions.mapIdx
    (interruptionLine logged.unprintable logged.interruptionFields)

def errorStatuses : List ℤ :=
  (logged.interruptionEntries ++ logged.accessEntries).flatMap (statuses ∘ logged.layer.write)

/-- The analysis counts the request as an error of one of the two sources, and once. -/
def ErrorsApart : Prop :=
  (logged.failedRecords = [] ∨ logged.errorStatuses = []) ∧
    logged.failedRecords.length ≤ 1 ∧ logged.errorStatuses.length ≤ 1

def accessForged : List ℤ :=
  logged.accessEntries.flatMap (forgedStatuses (loggedModel logged.request.response))

/-- The names of the model and of the backend forge these lines of the interruptions. -/
def interruptionForged : List ℤ :=
  (logged.request.emitted.interruptions.mapIdx fun i x ↦
    forgedStatuses (x.model ++ x.backend)
      (interruptionLine logged.unprintable logged.interruptionFields i x)).flatten

/-- No name forges a second line with a status, or one for a stream that has a record. -/
structure NotForged : Prop where
  access : logged.accessForged.length ≤ 1
  interruptions : logged.interruptionForged.length ≤ 1
  record : FailsOnRecord logged.request → logged.interruptionForged = []

theorem statuses_or_forged {name : String} {entry : Text}
    (h : OneLine name → (statuses entry).length ≤ 1) :
    (statuses entry).length ≤ 1 ↔ (forgedStatuses name entry).length ≤ 1 := by
  rw [forgedStatuses]
  split
  · rename_i hone
    exact iff_of_true (h hone) (Nat.zero_le 1)
  · exact Iff.rfl

theorem access_length_le_one :
    (logged.accessEntries.flatMap statuses).length ≤ 1 ↔ logged.accessForged.length ≤ 1 := by
  rw [accessForged, accessEntries, accessEntry]
  split
  · rw [Option.toList_some, List.flatMap_singleton, List.flatMap_singleton]
    apply statuses_or_forged
    intro hone
    exact statuses_length_le_one (errorLine_oneLine logged.unprintable hone)
  · exact Iff.rfl

theorem interruption_statuses
    (h : ∀ x ∈ logged.request.emitted.interruptions, OneLine x.endpoint) :
    logged.interruptionEntries.flatMap statuses = logged.interruptionForged := by
  rw [interruptionEntries, interruptionForged, List.flatMap]
  apply congrArg
  apply List.ext_getElem (by simp)
  intro i hi _
  rw [List.length_map, List.length_mapIdx] at hi
  rw [List.getElem_map, List.getElem_mapIdx, List.getElem_mapIdx]
  have hendpoint := h _ (List.getElem_mem hi)
  generalize logged.request.emitted.interruptions[i] = x at hendpoint ⊢
  rw [forgedStatuses]
  split
  · rename_i hnames
    rw [OneLine, String.toList_append, List.mem_append, not_or] at hnames
    apply statuses_interruptionLine
    exact interruptionLine_oneLine _ _ _ hendpoint hnames.1 hnames.2
  · rfl

/-- What the logs are left with: a stream that was answered leaves no line of the access log, and
any other request leaves nothing else. -/
inductive Sources : Prop
  | answered (records : OneRecord (FailsOnRecord logged.request) logged.request.emitted.records)
      (access : logged.accessEntries = [])
      (endpoints : ∀ x ∈ logged.request.emitted.interruptions, OneLine x.endpoint)
  | failed (emitted : logged.request.emitted = {})

theorem accessEntries_eq_nil {status : StatusCode} (h : logged.request.response.status = status)
    (hstatus : status.isSuccess = true) : logged.accessEntries = [] := by
  have hkind : ¬(status.isServerError || status.isClientError) = true := by
    simp only [StatusCode.isSuccess, StatusCode.isServerError, StatusCode.isClientError,
      Bool.and_eq_true, Bool.or_eq_true, decide_eq_true_eq] at hstatus ⊢
    omega
  rw [accessEntries, accessEntry, h, if_neg hkind]
  rfl

theorem streamEndpoint_oneLine (payload : RequestPayload) : OneLine (streamEndpoint payload) := by
  rw [streamEndpoint.eq_def]
  split
  · decide
  · decide
  · split <;> decide

theorem sources : logged.Sources := by
  cases h : logged.request with
  | refused refusal =>
    apply Sources.failed
    rw [h]
    rfl
  | invalid payload message rejected =>
    apply Sources.failed
    rw [h]
    rfl
  | dispatched payload run =>
    have hemitted : logged.request.emitted = run.emitted := by
      rw [h]
      rfl
    have hresponse : logged.request.response.status = run.response.status := by
      rw [h]
      rfl
    cases run.runEnding with
    | @json a c v w status hlast hu _ hstatus hresp _ hleft =>
      rw [hleft] at hemitted
      refine .answered ?_ (logged.accessEntries_eq_nil (hresponse.trans hresp) hstatus) ?_
      · rw [hemitted, h]
        refine ⟨Nat.le_refl 1, ?_⟩
        constructor
        · rintro ⟨r, hr, hfails⟩
          rw [List.mem_singleton.mp hr] at hfails
          simp only [StatusCode.isSuccess, Bool.and_eq_true, decide_eq_true_eq] at hstatus hfails
          omega
        · rintro ⟨a', c', hlast', hstream, _⟩
          rw [hlast] at hlast'
          cases hlast'
          rw [hu] at hstream
          cases hstream
      · rw [hemitted]
        intro x hx
        cases hx
    | @stream a c hlast hu hresp _ hleft =>
      rw [hleft] at hemitted
      refine .answered ?_ (logged.accessEntries_eq_nil (hresponse.trans hresp) rfl) ?_
      · have hrecord := streamEmitted_oneRecord env (payload.setModel c.model) a.client
          c.elapsed c.stream
        rw [hemitted, h]
        refine ⟨hrecord.1, hrecord.2.trans ?_⟩
        constructor
        · intro hfails
          exact ⟨a, c, hlast, hu, hfails⟩
        · rintro ⟨a', c', hlast', _, hfails⟩
          rw [hlast] at hlast'
          cases hlast'
          exact hfails
      · rw [hemitted]
        intro x hx
        obtain ⟨error, -, rfl⟩ := List.mem_map.mp hx
        exact streamEndpoint_oneLine _
    | passed _ _ _ hleft => exact .failed (hemitted.trans hleft)
    | own _ _ _ hleft => exact .failed (hemitted.trans hleft)

theorem failedRecords_length {fails : Prop}
    (h : OneRecord fails logged.request.emitted.records) :
    logged.failedRecords.length ≤ 1 ∧ (logged.failedRecords = [] ↔ ¬fails) := by
  refine ⟨(List.length_filter_le _ _).trans h.1, ?_⟩
  rw [← h.2, failedRecords, List.filter_eq_nil_iff]
  simp

/-- A request is an error of one source, and once, exactly when no name forges lines of the log. -/
theorem errorsApart_iff : logged.ErrorsApart ↔ logged.NotForged := by
  have hwritten : statuses ∘ logged.layer.write = statuses :=
    funext fun entry ↦ congrArg statuses (logged.layer.verbatim entry)
  rw [ErrorsApart, errorStatuses, hwritten, List.flatMap_append]
  cases logged.sources with
  | answered hrecords haccess hendpoints =>
    obtain ⟨hone, hnone⟩ := logged.failedRecords_length hrecords
    rw [logged.interruption_statuses hendpoints, haccess, List.flatMap_nil, List.append_nil, hnone]
    have hforged : logged.accessForged = [] := by rw [accessForged, haccess, List.flatMap_nil]
    constructor
    · rintro ⟨hapart, -, hcut⟩
      exact ⟨by simp [hforged], hcut, fun hfails ↦ hapart.resolve_left (not_not_intro hfails)⟩
    · rintro ⟨-, hcut, hrecord⟩
      refine ⟨?_, hone, hcut⟩
      by_cases hfails : FailsOnRecord logged.request
      · exact .inr (hrecord hfails)
      · exact .inl hfails
  | failed hemitted =>
    have hrecords : logged.failedRecords = [] := by rw [failedRecords, hemitted]; rfl
    have hentries : logged.interruptionEntries = [] := by rw [interruptionEntries, hemitted]; rfl
    have hforged : logged.interruptionForged = [] := by rw [interruptionForged, hemitted]; rfl
    rw [hrecords, hentries, List.flatMap_nil, List.nil_append, logged.access_length_le_one]
    constructor
    · rintro ⟨-, -, haccess⟩
      exact ⟨haccess, by simp [hforged], fun _ ↦ hforged⟩
    · intro h
      exact ⟨.inl rfl, Nat.zero_le 1, h.access⟩

theorem notForged_of_oneLine (hmodel : OneLine (loggedModel logged.request.response))
    (hnames : ∀ x ∈ logged.request.emitted.interruptions, OneLine (x.model ++ x.backend)) :
    logged.NotForged := by
  have haccess : logged.accessForged = [] := by
    rw [accessForged, List.flatMap_eq_nil_iff]
    intro entry _
    rw [forgedStatuses, if_pos hmodel]
  have hforged : logged.interruptionForged = [] := by
    rw [interruptionForged, List.flatten_eq_nil_iff]
    intro found hfound
    obtain ⟨i, hi, rfl⟩ := List.mem_mapIdx.mp hfound
    rw [forgedStatuses, if_pos (hnames _ (List.getElem_mem hi))]
  exact ⟨by simp [haccess], by simp [hforged], fun _ ↦ hforged⟩

end LoggedRequest

def forgedLine : String :=
  "1.1.1.1 - - [01/Jan/2026:00:00:00 +0000] \"POST / HTTP/1.1\" 500 0 \"-\" \"-\" 1s \"m\" " ++
    "\"-\" \"e\" \"-\""

def forgedModel : String := "x\n" ++ forgedLine ++ "\n" ++ forgedLine ++ "\ny"

def forgedRequest : LoggedRequest usageEnv where
  request := .invalid (.chat ⟨forgedModel, none⟩) "Request param messages not arr or arr is empty" rfl
  fields :=
    { clientIp := "1.2.3.4"
      timeStr := "01/Jan/2026:00:00:00 +0000"
      method := "POST"
      uri := "/v1/chat/completions"
      version := "HTTP/1.1"
      bodyBytes := "-"
      userAgent := "-"
      latency := "0.001"
      bearerToken := none
      logFullToken := false
      oneLine := by decide
      token_oneLine := by simp }
  interruptionFields :=
    { clientIp := "1.2.3.4"
      timeStr := fun _ ↦ "2026-01-01 00:00:00"
      clientIp_oneLine := by decide
      time_oneLine := fun _ ↦ by decide
      time_closed := fun _ ↦ by decide }
  unprintable := fun _ ↦ false
  layer := .plain

theorem request_logged_twice : forgedRequest.errorStatuses = [500, 500] ∧
    ¬forgedRequest.ErrorsApart := by
  have htwice : forgedRequest.errorStatuses = [500, 500] := by decide +kernel
  refine ⟨htwice, ?_⟩
  rintro ⟨-, -, hone⟩
  rw [htwice] at hone
  exact absurd hone (by decide)

end QueQiao.RequestRun
