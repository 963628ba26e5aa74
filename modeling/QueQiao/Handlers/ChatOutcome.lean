import QueQiao.Handlers.RequestRun
import QueQiao.Handlers.StreamTermination

namespace QueQiao.RequestRun

open StreamHandler StreamLoggers RequestMetrics

variable {texts : Texts} {cfg : StreamConfig}

/-- A JSON value is not rendered as the sentinel, and a text that is rejected does not turn into
it. -/
structure KeepsSentinel (texts : Texts) : Prop where
  render_ne : ∀ v, texts.render v ≠ streamUpstreamErrorSentinel
  rejected_ne : ∀ s s', texts.simdFromStr s = .error s' → s ≠ streamUpstreamErrorSentinel →
    s' ≠ streamUpstreamErrorSentinel

def isError : Item → Bool
  | .ok _ => false
  | .error _ => true

/-- An event with the sentinel for its data, which the closure sends on as it is. -/
def isForged (texts : Texts) (cfg : StreamConfig) : Item → Bool
  | .ok event => event.data = streamUpstreamErrorSentinel && !isPing texts cfg (.ok event) &&
      !cfg.needsJsonRoundtrip
  | .error _ => false

/-- No error follows a `[DONE]`, and the sentinel comes from errors only. -/
structure EndsOnce (texts : Texts) (cfg : StreamConfig) (polled : List Item) : Prop where
  done_of_error : polled.any isError = true → polled.any isDone = false
  error_of_forged : polled.any (isForged texts cfg) = true → polled.any isError = true

theorem mark_of_ne_running {outcome : StreamOutcome} (h : outcome ≠ .running)
    (new : StreamOutcome) : outcome.mark new = outcome := if_neg h

theorem onDone_outcome (s : StreamState) :
    (onDone texts cfg s).2.outcome = s.outcome.mark .completed := by
  simp only [onDone]
  split
  · split <;> rfl
  · rfl

theorem onRoundtrip_outcome (s : StreamState) (data : String) :
    (onRoundtrip texts cfg s data).2.outcome = s.outcome := by
  unfold onRoundtrip
  split <;> rfl

theorem onPatched_outcome (patch : Json → Json) (s : StreamState) (data : String) :
    (onPatched texts patch s data).2.outcome = s.outcome := by
  unfold onPatched
  split <;> rfl

theorem onItem_outcome (s : StreamState) (item : Item) :
    (onItem texts cfg s item).2.outcome =
      if isDone item then s.outcome.mark .completed
      else if isError item then s.outcome.mark .upstreamError
      else s.outcome := by
  cases item with
  | error message => rfl
  | ok event =>
    simp only [onItem, onEvent, isDone, isError, decide_eq_true_eq, Bool.false_eq_true, if_false]
    split_ifs
    · exact onDone_outcome s
    · rfl
    · exact onRoundtrip_outcome s event.data
    · exact onPatched_outcome _ s event.data
    · exact onPatched_outcome _ s event.data
    · rfl

theorem outcome_flatMap_of_ne {s : StreamState} (h : s.outcome ≠ .running) (items : List Item) :
    (flatMap texts cfg s items).2.outcome = s.outcome := by
  induction items generalizing s with
  | nil => rfl
  | cons item items ih =>
    have hitem : (onItem texts cfg s item).2.outcome = s.outcome := by
      rw [onItem_outcome, mark_of_ne_running h, mark_of_ne_running h]
      simp
    simp only [flatMap]
    rw [ih (by rw [hitem]; exact h), hitem]

theorem outcome_flatMap_iff {s : StreamState} (h : s.outcome = .running) (items : List Item) :
    (flatMap texts cfg s (terminateOnError items)).2.outcome = .upstreamError ↔
      (terminateOnError items).any isError = true ∧
        (terminateOnError items).any isDone = false := by
  induction items generalizing s with
  | nil => simp [terminateOnError, flatMap, h]
  | cons item items ih =>
    have hitem := @onItem_outcome texts cfg s item
    rw [h] at hitem
    cases item with
    | error message => simp [terminateOnError, flatMap, hitem, isDone, isError, StreamOutcome.mark]
    | ok event =>
      simp only [terminateOnError, flatMap, List.any_cons]
      cases hdone : isDone (.ok event) with
      | true =>
        rw [hdone, if_pos rfl] at hitem
        rw [outcome_flatMap_of_ne (by rw [hitem]; decide), hitem]
        simp [StreamOutcome.mark]
      | false =>
        rw [hdone, if_neg Bool.false_ne_true] at hitem
        rw [ih hitem]
        simp [isError]

theorem atEnd_eq_upstreamError_iff (ended : Bool) (outcome : StreamOutcome) :
    atEnd ended outcome = .upstreamError ↔ outcome = .upstreamError := by
  cases ended <;> cases outcome <;> decide

theorem chatState_outcome_iff (run : StreamRun) :
    (run.chatState texts cfg).outcome = .upstreamError ↔
      (terminateOnError run.items).any isError = true ∧
        (terminateOnError run.items).any isDone = false :=
  outcome_flatMap_iff rfl run.items

def hasSentinel (s : StreamState) : Prop := streamUpstreamErrorSentinel ∈ s.logged.map chunkStr

theorem hasSentinel_send (s : StreamState) (text : String) :
    hasSentinel (s.send text) ↔ hasSentinel s ∨ text = streamUpstreamErrorSentinel := by
  simp [hasSentinel, StreamState.send, chunkStr, eq_comm]

theorem hasSentinel_send_render (h : KeepsSentinel texts) (s : StreamState) (v : Json) :
    hasSentinel (s.send (texts.render v)) ↔ hasSentinel s := by
  rw [hasSentinel_send, or_iff_left (h.render_ne v)]

theorem hasSentinel_congr {s t : StreamState} (h : t.logged = s.logged) :
    hasSentinel t ↔ hasSentinel s := by rw [hasSentinel, h, hasSentinel]

theorem hasSentinel_onDone (h : KeepsSentinel texts) (s : StreamState) :
    hasSentinel (onDone texts cfg s).2 ↔ hasSentinel s := by
  simp only [onDone]
  split
  · split
    · exact hasSentinel_send_render h _ _
    · exact hasSentinel_congr rfl
  · exact hasSentinel_congr rfl

theorem hasSentinel_onRoundtrip (h : KeepsSentinel texts) (s : StreamState) (data : String) :
    hasSentinel (onRoundtrip texts cfg s data).2 ↔ hasSentinel s := by
  unfold onRoundtrip
  split
  · exact hasSentinel_send_render h _ _
  · rfl

theorem hasSentinel_onPatched (h : KeepsSentinel texts) (patch : Json → Json) (s : StreamState)
    {data : String} (hdata : data ≠ streamUpstreamErrorSentinel) :
    hasSentinel (onPatched texts patch s data).2 ↔ hasSentinel s := by
  unfold onPatched
  split
  · exact hasSentinel_send_render h _ _
  · rename_i data' hrejected
    rw [hasSentinel_send, or_iff_left (h.rejected_ne _ _ hrejected hdata)]

theorem sentinel_ne_done : streamUpstreamErrorSentinel ≠ "[DONE]" := by decide

theorem sentinel_no_markers :
    hasEmptyChoicesMarker streamUpstreamErrorSentinel.toList = false ∧
      hasModelFieldMarker streamUpstreamErrorSentinel.toList = false := by
  constructor
  · have hfind : Lib.Delimiters.findSub choicesKey streamUpstreamErrorSentinel.toList = none := by
      decide
    rw [hasEmptyChoicesMarker]
    split
    · rfl
    · rename_i h
      cases hfind.symm.trans h
  · decide

theorem hasSentinel_onItem (h : KeepsSentinel texts) (s : StreamState) (item : Item) :
    hasSentinel (onItem texts cfg s item).2 ↔
      hasSentinel s ∨ isError item = true ∨ isForged texts cfg item = true := by
  cases item with
  | error message => simp [onItem, onError, hasSentinel, chunkStr, isError]
  | ok event =>
    have hforged : isForged texts cfg (.ok event) = true ↔
        event.data = streamUpstreamErrorSentinel ∧ isPing texts cfg (.ok event) = false ∧
          cfg.needsJsonRoundtrip = false := by
      simp [isForged, and_assoc]
    rw [hforged]
    simp only [onItem, onEvent, isError, Bool.false_eq_true, false_or]
    split_ifs with hdone hping hround hchoices hmodel
    · rw [hasSentinel_onDone h, hdone]
      simp [sentinel_ne_done.symm]
    · have hping' : isPing texts cfg (.ok event) = true := by simpa [isPing, hdone] using hping
      simp [hping']
    · rw [hasSentinel_onRoundtrip h]
      simp [hround]
    · have hdata : event.data ≠ streamUpstreamErrorSentinel := by
        intro heq
        rw [heq, sentinel_no_markers.1] at hchoices
        exact Bool.false_ne_true hchoices
      rw [hasSentinel_onPatched h _ s hdata]
      simp [hdata]
    · have hdata : event.data ≠ streamUpstreamErrorSentinel := by
        intro heq
        rw [heq, sentinel_no_markers.2, Bool.and_false] at hmodel
        exact Bool.false_ne_true hmodel
      rw [hasSentinel_onPatched h _ s hdata]
      simp [hdata]
    · have hping' : isPing texts cfg (.ok event) = false := by simpa [isPing, hdone] using hping
      rw [hasSentinel_send]
      simp [hping', hround]

theorem hasSentinel_flatMap (h : KeepsSentinel texts) (s : StreamState) (items : List Item) :
    hasSentinel (flatMap texts cfg s items).2 ↔
      hasSentinel s ∨ items.any isError = true ∨ items.any (isForged texts cfg) = true := by
  induction items generalizing s with
  | nil => simp [flatMap]
  | cons item items ih =>
    simp only [flatMap, List.any_cons, Bool.or_eq_true]
    rw [ih, hasSentinel_onItem h]
    tauto

theorem receive_streamFailed (serdeFromStr : String → Option Json) (s : ChatLog) (text : String) :
    (s.receive serdeFromStr text).streamFailed = true ↔
      s.streamFailed = true ∨ text = streamUpstreamErrorSentinel := by
  unfold ChatLog.receive
  split
  · rename_i heq
    simp [heq]
  · rename_i hne
    rw [or_iff_left hne]
    split
    · rfl
    · split <;> rfl

theorem foldl_receive_streamFailed (serdeFromStr : String → Option Json) (s : ChatLog)
    (received : List String) :
    (received.foldl (ChatLog.receive serdeFromStr) s).streamFailed = true ↔
      s.streamFailed = true ∨ streamUpstreamErrorSentinel ∈ received := by
  induction received generalizing s with
  | nil => simp
  | cons text received ih =>
    rw [List.foldl_cons, ih, receive_streamFailed, List.mem_cons, eq_comm (a := text), or_assoc]

theorem outcomeToStatus_eq_502_iff (outcome : StreamOutcome) (sawTerminalEvent : Bool) :
    (outcomeToStatus outcome sawTerminalEvent).1 = 502 ↔ outcome = .upstreamError := by
  cases outcome <;> cases sawTerminalEvent <;> decide

theorem streamLoggerTask_emits {serdeFromStr : String → Option Json} {args : LoggerArgs}
    {outcome : StreamOutcome} {received : List String} {record : AuditRecord} {event : MetricEvent}
    (hrecord : record ∈ (streamLoggerTask serdeFromStr args outcome received).records)
    (hevent : event ∈ (streamLoggerTask serdeFromStr args outcome received).events) :
    (record.status = 502 ↔ outcome = .upstreamError) ∧
      (event.isSuccess = false ↔ streamUpstreamErrorSentinel ∈ received) := by
  rw [streamLoggerTask] at hrecord hevent
  split at hrecord
  · rename_i hlogs
    rw [if_pos hlogs] at hevent
    obtain rfl := List.mem_singleton.mp hrecord
    obtain rfl := List.mem_singleton.mp hevent
    refine ⟨outcomeToStatus_eq_502_iff outcome false, ?_⟩
    have hfailed := foldl_receive_streamFailed serdeFromStr {} received
    simpa [LoggerArgs.event] using hfailed
  · simp at hrecord

def StreamRun.chatEmitted (texts : Texts) (cfg : StreamConfig) (args : LoggerArgs)
    (run : StreamRun) : Emitted :=
  streamLoggerTask texts.serdeFromStr args (atEnd run.ended (run.chatState texts cfg).outcome)
    ((run.chatState texts cfg).logged.map chunkStr)

theorem loggerEmitted_chat (env : Env) (client : ClientConfig) (elapsed : ℚ) (run : StreamRun)
    (request : StreamingRequest) :
    loggerEmitted env (.chat request) client elapsed run =
      run.chatEmitted env.texts (streamConfig env.config client (.chat request))
        (loggerArgs (.chat request) client elapsed) := rfl

/-- The audit record has status 502 exactly if the metric has a request without success. -/
def FailuresAgree (record : AuditRecord) (event : MetricEvent) : Prop :=
  record.status = 502 ↔ event.isSuccess = false

theorem failuresAgree_iff_endsOnce (h : KeepsSentinel texts) (args : LoggerArgs) (run : StreamRun)
    {record : AuditRecord} {event : MetricEvent}
    (hrecord : record ∈ (run.chatEmitted texts cfg args).records)
    (hevent : event ∈ (run.chatEmitted texts cfg args).events) :
    FailuresAgree record event ↔ EndsOnce texts cfg (terminateOnError run.items) := by
  obtain ⟨hstatus, hsuccess⟩ := streamLoggerTask_emits hrecord hevent
  rw [atEnd_eq_upstreamError_iff, chatState_outcome_iff] at hstatus
  have hsentinel : event.isSuccess = false ↔
      (terminateOnError run.items).any isError = true ∨
        (terminateOnError run.items).any (isForged texts cfg) = true := by
    have hinit : ¬hasSentinel (.init cfg) := by simp [hasSentinel, StreamState.init]
    have hrun := @hasSentinel_flatMap texts cfg h (.init cfg) (terminateOnError run.items)
    rw [or_iff_right hinit] at hrun
    exact hsuccess.trans hrun
  rw [FailuresAgree, hstatus, hsentinel]
  constructor
  · intro hagree
    exact ⟨fun herror ↦ (hagree.mpr (.inl herror)).2, fun hforged ↦ (hagree.mpr (.inr hforged)).1⟩
  · intro honce
    constructor
    · exact fun hfailed ↦ .inl hfailed.1
    · rintro (herror | hforged)
      · exact ⟨herror, honce.done_of_error herror⟩
      · have herror := honce.error_of_forged hforged
        exact ⟨herror, honce.done_of_error herror⟩

def objectTexts : Texts := tableTexts [("\x7b\x7d", .obj [])]

theorem objectTexts_keepsSentinel : KeepsSentinel objectTexts where
  render_ne _ := by
    show "\x7b\x7d" ≠ streamUpstreamErrorSentinel
    decide
  rejected_ne s s' hs hne := by
    simp only [objectTexts, tableTexts] at hs
    split at hs
    · cases hs
    · cases hs
      exact hne

def chatArgs : LoggerArgs where
  isChat := true
  model := "m"
  backend := "b"
  endpoint := "/v1/chat/completions"
  status := "200"
  totalElapsed := 1

def interruptedRun : StreamRun where
  items := [.ok ⟨"message", "\x7b\x7d"⟩, .error "reset"]
  ended := true

def doneThenErrorRun : StreamRun where
  items := [.ok ⟨"message", "\x7b\x7d"⟩, .ok ⟨"message", "[DONE]"⟩, .error "reset"]
  ended := true

theorem failuresAgree_iff_endsOnce_interrupted :
    ∃ (hrecords : (interruptedRun.chatEmitted objectTexts plainChat chatArgs).records ≠ [])
      (hevents : (interruptedRun.chatEmitted objectTexts plainChat chatArgs).events ≠ []),
      FailuresAgree
          ((interruptedRun.chatEmitted objectTexts plainChat chatArgs).records.head hrecords)
          ((interruptedRun.chatEmitted objectTexts plainChat chatArgs).events.head hevents) ↔
        EndsOnce objectTexts plainChat (terminateOnError interruptedRun.items) :=
  ⟨by decide +kernel, fun h ↦ absurd (congrArg List.length h) (by decide +kernel),
    failuresAgree_iff_endsOnce objectTexts_keepsSentinel chatArgs interruptedRun
      (List.head_mem _) (List.head_mem _)⟩

theorem done_then_error_disagrees :
    ∃ record event,
      (doneThenErrorRun.chatEmitted objectTexts plainChat chatArgs).records = [record] ∧
      (doneThenErrorRun.chatEmitted objectTexts plainChat chatArgs).events = [event] ∧
      record.status = 200 ∧ event.isSuccess = false ∧ ¬FailuresAgree record event := by
  have hstatus : (doneThenErrorRun.chatEmitted objectTexts plainChat chatArgs).records.map
      (·.status) = [200] := by decide +kernel
  have hsuccess : (doneThenErrorRun.chatEmitted objectTexts plainChat chatArgs).events.map
      (·.isSuccess) = [false] := by decide +kernel
  obtain ⟨record, hrecord, h200⟩ := List.map_eq_singleton_iff.mp hstatus
  obtain ⟨event, hevent, hfalse⟩ := List.map_eq_singleton_iff.mp hsuccess
  refine ⟨record, event, hrecord, hevent, h200, hfalse, ?_⟩
  intro hagree
  have h502 := hagree.mpr hfalse
  rw [h200] at h502
  exact absurd h502 (by decide)

end QueQiao.RequestRun
