import QueQiao.Handlers.StreamTermination
import QueQiao.Lib.Polling

namespace QueQiao.StreamHandler

open Lib.Delimiters Lib.Polling Lib.Polling.PollStream

def SseEvent.IsError : SseEvent → Prop
  | .error _ _ => True
  | _ => False

def doneSentinelPoll (flag emitted : Bool) : Poll SseEvent × Bool :=
  if emitted then (.ready none, emitted)
  else if flag then (.ready none, true)
  else (.ready (some .done), true)

section

variable (texts : Texts) (cfg : StreamConfig)

theorem onItem_ne_nil (s : StreamState) (item : Item) : (onItem texts cfg s item).1 ≠ [] := by
  generalize hr : onItem texts cfg s item = r
  have h := Emitted.of_onItem texts cfg s item
  rw [hr] at h
  cases h with
  | done hdone =>
    obtain h | ⟨delta, h⟩ := onDone_events texts cfg s <;> rw [h] <;> exact List.cons_ne_nil _ _
  | ping | data | error => exact List.cons_ne_nil _ _

theorem onItem_ok_not_error (s : StreamState) (event : UpstreamEvent) :
    ∀ e ∈ (onItem texts cfg s (.ok event)).1, ¬e.IsError := by
  simp only [onItem, onEvent]
  split_ifs
  · obtain h | ⟨delta, h⟩ := onDone_events texts cfg s <;> rw [h] <;> simp [SseEvent.IsError]
  · simp [SseEvent.IsError]
  · rw [onRoundtrip]
    split <;> simp [SseEvent.IsError]
  · rw [onPatched]
    split <;> simp [SseEvent.IsError]
  · rw [onPatched]
    split <;> simp [SseEvent.IsError]
  · simp [SseEvent.IsError]

/-- The stream that `process_streaming_response` answers with. `onItem` marks the outcome of an
error itself. -/
def sseStream (source : PollStream Item) : PollStream SseEvent :=
  (PollStream.flatMap (onItem texts cfg) (onItem_ne_nil texts cfg) (.init cfg)
    (PollStream.terminateOnError source)).chain
      (fun x emitted ↦ doneSentinelPoll x.2.1.doneFlag emitted) false

end

/-- An event on its way to the client of the other two handlers. -/
inductive RelayedEvent
  | forwarded (event : Option String) (data : String)
  | error (data : Json)

def RelayedEvent.IsError : RelayedEvent → Prop
  | .error _ => True
  | .forwarded _ _ => False

/-- What a relaying closure has sent to the logger task, and the interruptions it has logged. -/
structure RelayState where
  logged : List String := []
  interruptions : List String := []

structure Relay where
  echo : Json → Json
  errorData : String → Json

section

variable (texts : Texts) (echoInboundModel : Bool)

def relayData (relay : Relay) (data : String) : String :=
  if echoInboundModel && hasModelFieldMarker data.toList then
    match texts.serdeFromStr data with
    | some value => texts.render (relay.echo value)
    | none => data
  else data

def relayItem (relay : Relay) (s : RelayState) : Item → RelayedEvent × RelayState
  | .ok event =>
    (.forwarded (if event.event = "" then none else some event.event)
        (relayData texts echoInboundModel relay event.data),
      { s with logged := s.logged ++ [event.data] })
  | .error e => (.error (relay.errorData e), { s with interruptions := s.interruptions ++ [e] })

def outcomeSignal : PollStream Item → PollStream Item :=
  PollStream.tap (fun (outcome : StreamOutcome) answer ↦ match answer with
    | .ready (some (.error _)) => outcome.mark .upstreamError
    | .ready none => outcome.mark .completed
    | _ => outcome) .running

def relayStream (relay : Relay) (source : PollStream Item) : PollStream RelayedEvent :=
  PollStream.mapAccum (relayItem texts echoInboundModel relay) {} (outcomeSignal source)

end

section

variable (modelName : String)

def anthropicEcho : Json → Json
  | .obj fields =>
    let fields := Json.Fields.insert "model" (.str modelName) fields
    match Json.Fields.get fields "message" with
    | some (.obj message) =>
      .obj (Json.Fields.insert "message"
        (.obj (Json.Fields.insert "model" (.str modelName) message)) fields)
    | _ => .obj fields
  | value => value

def anthropicErrorData (e : String) : Json :=
  .obj [("error", .obj [("message", .str ("upstream stream interrupted: " ++ e)),
    ("type", .str "api_error")]), ("type", .str "error")]

def anthropicRelay : Relay := ⟨anthropicEcho modelName, anthropicErrorData⟩

def responsesEcho : Json → Json
  | .obj fields =>
    let fields := if (Json.Fields.get fields "model").isSome then
        Json.Fields.insert "model" (.str modelName) fields
      else fields
    match Json.Fields.get fields "response" with
    | some (.obj response) =>
      if (Json.Fields.get response "model").isSome then
        .obj (Json.Fields.insert "response"
          (.obj (Json.Fields.insert "model" (.str modelName) response)) fields)
      else .obj fields
    | _ => .obj fields
  | value => value

def responsesErrorData (e : String) : Json :=
  .obj [("code", .str "upstream_error"),
    ("message", .str ("upstream stream interrupted: " ++ e)), ("param", .null),
    ("type", .str "error")]

def responsesRelay : Relay := ⟨responsesEcho modelName, responsesErrorData⟩

end

section

variable (texts : Texts) (echoInboundModel : Bool) (modelName : String)

def anthropicSseStream : PollStream Item → PollStream RelayedEvent :=
  relayStream texts echoInboundModel (anthropicRelay modelName)

def responsesSseStream : PollStream Item → PollStream RelayedEvent :=
  relayStream texts echoInboundModel (responsesRelay modelName)

end

def IsErr (item : Item) : Prop := ∃ e, item = .error e

theorem terminalOn_relayStream_iff (texts : Texts) (echoInboundModel : Bool) (relay : Relay)
    (source : PollStream Item) :
    (relayStream texts echoInboundModel relay source).TerminalOn RelayedEvent.IsError ↔
      source.StopsAfter IsErr := by
  have hclosure : ∀ s item, RelayedEvent.IsError
      (relayItem texts echoInboundModel relay s item).1 ↔ IsErr item := by
    intro s item
    cases item with
    | ok event => simp [relayItem, RelayedEvent.IsError, IsErr]
    | error e => simp [relayItem, RelayedEvent.IsError, IsErr]
  exact (terminalOn_mapAccum_iff hclosure {} (outcomeSignal source)).trans
    (stopsAfter_tap_iff _ _ source)

/-- Nothing that waits behind an event of the chat stream is an error event. -/
def QueueClean {source : PollStream Item} (texts : Texts) (cfg : StreamConfig)
    (x : (sseStream texts cfg source).State) : Prop :=
  ∀ e ∈ x.1.2.2, ¬e.IsError

def isErr : Item → Bool
  | .error _ => true
  | .ok _ => false

section

variable {texts : Texts} {cfg : StreamConfig} {source : PollStream Item}

theorem doneSentinelPoll_ne_error {flag emitted : Bool} {e : SseEvent}
    (h : (doneSentinelPoll flag emitted).1 = .ready (some e)) : ¬e.IsError := by
  simp only [doneSentinelPoll] at h
  split_ifs at h <;> cases h
  simp [SseEvent.IsError]

theorem doneSentinelPoll_of_flag (emitted : Bool) :
    (doneSentinelPoll true emitted).1 = .ready none := by
  cases emitted <;> rfl

theorem sseStream_poll_item {y y' : source.State} {item : Item}
    (h : source.poll y = (.ready (some item), y')) (t : StreamState) (emitted : Bool) :
    (sseStream texts cfg source).poll (((y, false), t, []), false, emitted) =
      (.ready (some ((onItem texts cfg t item).1.head (onItem_ne_nil texts cfg t item))),
        (((y', isErr item), (onItem texts cfg t item).2,
          (onItem texts cfg t item).1.tail), false, emitted)) := by
  cases item <;>
    simp only [sseStream, chain, PollStream.flatMap, PollStream.terminateOnError, h, isErr,
      Bool.false_eq_true, ↓reduceIte]

theorem queueClean_poll (x : (sseStream texts cfg source).State) (h : QueueClean texts cfg x) :
    QueueClean texts cfg ((sseStream texts cfg source).poll x).2 := by
  obtain ⟨⟨⟨y, terminated⟩, t, queue⟩, finished, emitted⟩ := x
  cases finished with
  | true => exact h
  | false =>
    cases queue with
    | cons b rest => exact fun e he ↦ h e (List.mem_cons_of_mem b he)
    | nil =>
      cases terminated with
      | true => exact h
      | false =>
        rcases hpoll : source.poll y with ⟨answer, y'⟩
        cases answer with
        | pending =>
          simp [QueueClean, sseStream, chain, PollStream.flatMap, PollStream.terminateOnError,
            hpoll]
        | ready item =>
          cases item with
          | none =>
            simp [QueueClean, sseStream, chain, PollStream.flatMap, PollStream.terminateOnError,
              hpoll]
          | some item =>
            rw [sseStream_poll_item hpoll]
            cases item with
            | error e => simp [QueueClean, onItem, onError]
            | ok event =>
              exact fun e he ↦ onItem_ok_not_error texts cfg t event e (List.mem_of_mem_tail he)

theorem sseStream_poll_after_error (x : (sseStream texts cfg source).State)
    (h : QueueClean texts cfg x) {e : SseEvent}
    (he : ((sseStream texts cfg source).poll x).1 = .ready (some e)) (hbad : e.IsError) :
    ((sseStream texts cfg source).poll ((sseStream texts cfg source).poll x).2).1 =
      .ready none := by
  obtain ⟨⟨⟨y, terminated⟩, t, queue⟩, finished, emitted⟩ := x
  cases finished with
  | true => exact absurd hbad (doneSentinelPoll_ne_error he)
  | false =>
    cases queue with
    | cons b rest =>
      obtain rfl : b = e := Option.some.inj (Poll.ready.inj he)
      exact absurd hbad (h b List.mem_cons_self)
    | nil =>
      cases terminated with
      | true => exact absurd hbad (doneSentinelPoll_ne_error he)
      | false =>
        rcases hpoll : source.poll y with ⟨answer, y'⟩
        cases answer with
        | pending =>
          simp [sseStream, chain, PollStream.flatMap, PollStream.terminateOnError, hpoll] at he
        | ready item =>
          cases item with
          | none =>
            simp only [sseStream, chain, PollStream.flatMap, PollStream.terminateOnError, hpoll,
              Bool.false_eq_true, ↓reduceIte] at he
            exact absurd hbad (doneSentinelPoll_ne_error he)
          | some item =>
            rw [sseStream_poll_item hpoll] at he ⊢
            cases item with
            | ok event =>
              obtain rfl := Option.some.inj (Poll.ready.inj he)
              exact absurd hbad (onItem_ok_not_error texts cfg t event _ (List.head_mem _))
            | error message =>
              -- the closure raises the flag of the sentinel, and leaves nothing in the queue
              exact doneSentinelPoll_of_flag emitted

/-! The polled stream against the one that is read at once. -/

theorem emits_queue {x : source.State × Bool} {t : StreamState} {queue events : List SseEvent}
    (h : (sseStream texts cfg source).Emits ((x, t, []), false, false) events) :
    (sseStream texts cfg source).Emits ((x, t, queue), false, false) (queue ++ events) := by
  induction queue with
  | nil => exact h
  | cons b rest ih => exact .item rfl ih

theorem emits_sentinel (x : source.State × Bool) (t : StreamState)
    (h : ((sseStream texts cfg source).poll ((x, t, []), false, false)).1 =
      (doneSentinelPoll t.doneFlag false).1)
    (hnext : t.doneFlag = false →
      ∃ y, ((sseStream texts cfg source).poll ((x, t, []), false, false)).2 = (y, true, true)) :
    (sseStream texts cfg source).Emits ((x, t, []), false, false) (doneSentinel t.doneFlag) := by
  cases hflag : t.doneFlag with
  | true =>
    rw [hflag] at h
    exact .ended h
  | false =>
    rw [hflag] at h
    obtain ⟨y, hy⟩ := hnext hflag
    refine .item h ?_
    rw [hy]
    exact .ended rfl

theorem emits_flatMap (all rest : List Item) (t : StreamState) :
    (sseStream texts cfg (ofList all)).Emits (((rest, false), t, []), false, false)
      ((flatMap texts cfg t (terminateOnError rest)).1 ++
        doneSentinel (flatMap texts cfg t (terminateOnError rest)).2.doneFlag) := by
  induction rest generalizing t with
  | nil =>
    refine emits_sentinel _ t rfl fun hflag ↦ ⟨(([], true), t, []), ?_⟩
    simp [sseStream, chain, PollStream.flatMap, PollStream.terminateOnError, ofList,
      doneSentinelPoll, hflag]
  | cons item rest ih =>
    have hpoll : (ofList all).poll (item :: rest) = (.ready (some item), rest) := rfl
    have hstep : (sseStream texts cfg (ofList all)).poll
        (((item :: rest, false), t, []), false, false) = _ := sseStream_poll_item hpoll t false
    have hitem : ∀ events,
        (sseStream texts cfg (ofList all)).Emits
          (((rest, isErr item), (onItem texts cfg t item).2, []), false, false) events →
        (sseStream texts cfg (ofList all)).Emits (((item :: rest, false), t, []), false, false)
          ((onItem texts cfg t item).1 ++ events) := by
      intro events hevents
      have hqueue : (sseStream texts cfg (ofList all)).Emits
          (((rest, isErr item), (onItem texts cfg t item).2, (onItem texts cfg t item).1.tail),
            false, false) ((onItem texts cfg t item).1.tail ++ events) := emits_queue hevents
      rw [← List.cons_head_tail (onItem_ne_nil texts cfg t item)]
      refine .item (congrArg Prod.fst hstep) ?_
      rw [hstep]
      exact hqueue
    cases item with
    | ok event =>
      have h := hitem _ (ih _)
      simpa only [terminateOnError, flatMap, List.append_assoc] using h
    | error e =>
      have hflag : (onItem texts cfg t (.error e)).2.doneFlag = true := rfl
      have h := hitem [] (.ended rfl)
      simpa only [terminateOnError, flatMap, hflag, doneSentinel, ↓reduceIte,
        List.append_nil] using h

theorem emits_processStream (texts : Texts) (cfg : StreamConfig) (items : List Item) :
    (sseStream texts cfg (ofList items)).Emits (sseStream texts cfg (ofList items)).start
      (processStream texts cfg items) :=
  emits_flatMap items items (.init cfg)

theorem terminalOn_sseStream (texts : Texts) (cfg : StreamConfig) (source : PollStream Item) :
    (sseStream texts cfg source).TerminalOn SseEvent.IsError := by
  have hclean : ∀ n, QueueClean texts cfg ((sseStream texts cfg source).state n) := by
    refine state_invariant ?_ queueClean_poll
    exact fun e he ↦ absurd he List.not_mem_nil
  refine terminalOn_of_next fun n e he hbad ↦ ?_
  rw [answer, state_succ]
  exact sseStream_poll_after_error _ (hclean n) he hbad

/-- The chat handler stops by itself; the two relays stop when their source does. -/
theorem errorEvents_terminal_iff (texts : Texts) (cfg : StreamConfig) (echoInboundModel : Bool)
    (modelName : String) (source : PollStream Item) :
    (sseStream texts cfg source).TerminalOn SseEvent.IsError ∧
    ((anthropicSseStream texts echoInboundModel modelName source).TerminalOn
      RelayedEvent.IsError ↔ source.StopsAfter IsErr) ∧
    ((responsesSseStream texts echoInboundModel modelName source).TerminalOn
      RelayedEvent.IsError ↔ source.StopsAfter IsErr) := by
  refine ⟨terminalOn_sseStream texts cfg source, ?_, ?_⟩
  · exact terminalOn_relayStream_iff texts echoInboundModel (anthropicRelay modelName) source
  · exact terminalOn_relayStream_iff texts echoInboundModel (responsesRelay modelName) source

def repeatingError (e : String) : PollStream Item where
  State := Unit
  start := ()
  poll _ := (.ready (some (.error e)), ())

theorem relays_repeat_error :
    ¬(anthropicSseStream ⟨.error, fun _ ↦ none, fun _ ↦ ""⟩ false "claude"
        (repeatingError "connection reset")).TerminalOn RelayedEvent.IsError ∧
    ¬(responsesSseStream ⟨.error, fun _ ↦ none, fun _ ↦ ""⟩ false "gpt"
        (repeatingError "connection reset")).TerminalOn RelayedEvent.IsError := by
  have hnot : ¬(repeatingError "connection reset").StopsAfter IsErr := by
    intro h
    have hdel : (repeatingError "connection reset").Delivers 0 (.error "connection reset") :=
      ⟨rfl, fun k hk ↦ absurd hk (Nat.not_lt_zero k)⟩
    obtain ⟨m, -, hend, -⟩ := h 0 _ hdel ⟨_, rfl⟩
    cases hend
  constructor
  · intro h
    exact hnot ((terminalOn_relayStream_iff _ false (anthropicRelay "claude") _).mp h)
  · intro h
    exact hnot ((terminalOn_relayStream_iff _ false (responsesRelay "gpt") _).mp h)

end

end QueQiao.StreamHandler
