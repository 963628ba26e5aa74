import QueQiao.Handlers.ThinkingTransformer

namespace QueQiao.StreamHandler

open ThinkingTransformer Lib.Delimiters

structure UpstreamEvent where
  event : String
  data : String
  deriving DecidableEq, Repr

abbrev Item := Except String UpstreamEvent

/-- The JSON libraries. `simd_json::from_str` parses in place, so that a text it rejects can have
been changed. -/
structure Texts where
  simdFromStr : String → Except String Json
  serdeFromStr : String → Option Json
  render : Json → String

/-- A JSON value is not rendered as `[DONE]`, and a text that is rejected does not turn into it. -/
structure Texts.Lawful (texts : Texts) : Prop where
  render_ne : ∀ v, texts.render v ≠ "[DONE]"
  rejected_ne : ∀ s s', texts.simdFromStr s = .error s' → s ≠ "[DONE]" → s' ≠ "[DONE]"

/-- The locals of `process_streaming_response` that its closure captures. -/
structure StreamConfig where
  isChat : Bool
  specialPrefix : String
  thinkingFormat : ThinkingFormat
  echoInboundModel : Bool
  modelName : String
  deriving DecidableEq, Repr

namespace StreamConfig

def thinkingTarget (cfg : StreamConfig) : ThinkingFormat :=
  if cfg.isChat then cfg.thinkingFormat else .passthrough

def applyThinking (cfg : StreamConfig) : Bool := cfg.isChat && cfg.thinkingTarget ≠ .passthrough

def needsJsonRoundtrip (cfg : StreamConfig) : Bool := cfg.applyThinking || cfg.specialPrefix ≠ ""

def contentPointer (cfg : StreamConfig) : List Json.Token :=
  if cfg.isChat then [("choices", none), ("0", some 0), ("delta", none), ("content", none)]
  else [("choices", none), ("0", some 0), ("text", none)]

end StreamConfig

def deltaPointer : List Json.Token := [("choices", none), ("0", some 0), ("delta", none)]

def flushChunk (delta : Json) : Json :=
  .obj [("choices", .arr [.obj [("delta", delta), ("index", .num 0)]])]

def errorChunk (model error : String) : Json :=
  .obj [("choices", .arr [.obj [("delta", .obj []), ("finish_reason", .str "error"),
      ("index", .num 0)]]),
    ("error", .obj [("code", .str "upstream_error"),
      ("message", .str ("upstream stream interrupted: " ++ error))]),
    ("model", .str model),
    ("object", .str "chat.completion.chunk")]

/-- An event on its way to the client; the constructor tells where its data comes from. -/
inductive SseEvent
  | chunk (value : Json)
  | raw (data : String)
  | flush (delta : Json)
  | error (model message : String)
  | done
  | comment (text : String)

/-- The `data` of an event on the wire. -/
def SseEvent.data (texts : Texts) : SseEvent → Option String
  | .chunk value => some (texts.render value)
  | .raw data => some data
  | .flush delta => some (texts.render (flushChunk delta))
  | .error model message => some (texts.render (errorChunk model message))
  | .done => some "[DONE]"
  | .comment _ => none

inductive LogMessage
  | text (s : String)
  | upstreamError
  deriving DecidableEq, Repr

inductive StreamOutcome
  | running
  | completed
  | upstreamError
  deriving DecidableEq, Repr

def StreamOutcome.mark (outcome new : StreamOutcome) : StreamOutcome :=
  if outcome = .running then new else outcome

/-- The state of the closure, with what it has sent to the logger task and the interruptions it
has logged. -/
structure StreamState where
  transformer : ThinkingStreamTransformer
  prefixApplied : Bool
  doneFlag : Bool
  outcome : StreamOutcome
  logged : List LogMessage
  interruptions : List String

def StreamState.init (cfg : StreamConfig) : StreamState where
  transformer := .new cfg.thinkingTarget
  prefixApplied := false
  doneFlag := false
  outcome := .running
  logged := []
  interruptions := []

def StreamState.send (s : StreamState) (text : String) : StreamState :=
  { s with logged := s.logged ++ [.text text] }

variable (texts : Texts) (cfg : StreamConfig)

def isChatCompletionPing (event : UpstreamEvent) : Bool :=
  if event.event = "ping" then true
  else if (findSub "\"type\"".toList event.data.toList).isNone then false
  else
    (texts.serdeFromStr event.data).any fun value ↦
      decide ((value.get "type").bind Json.asStr = some "ping")

def isWhiteSpace (c : Char) : Bool :=
  let n := c.toNat
  (9 ≤ n && n ≤ 13) || n == 0x20 || n == 0x85 || n == 0xA0 || n == 0x1680 ||
    (0x2000 ≤ n && n ≤ 0x200A) || n == 0x2028 || n == 0x2029 || n == 0x202F || n == 0x205F ||
    n == 0x3000

def choicesKey : List Char := "\"choices\"".toList

theorem choicesKey_ne_nil : choicesKey ≠ [] := by decide

def hasEmptyChoicesMarker (data : List Char) : Bool :=
  match _h : findSub choicesKey data with
  | none => false
  | some pos =>
    let after := data.drop (pos + choicesKey.length)
    let isEmptyArray := match after.dropWhile isWhiteSpace with
      | ':' :: after =>
        match after.dropWhile isWhiteSpace with
        | '[' :: after => (after.dropWhile isWhiteSpace).head? == some ']'
        | _ => false
      | _ => false
    isEmptyArray || hasEmptyChoicesMarker after
termination_by data.length
decreasing_by
  have hle := (findSub_eq_some_iff.mp _h).2.1.length_le
  have hpos := List.length_pos_iff.mpr choicesKey_ne_nil
  simp only [List.length_drop] at hle ⊢
  omega

def hasModelFieldMarker (data : List Char) : Bool := (findSub "\"model\"".toList data).isSome

def rewriteChunkModel (inboundModel : String) : Json → Json
  | .obj fields =>
    if (Json.Fields.get fields "model").isSome then
      .obj (Json.Fields.insert "model" (.str inboundModel) fields)
    else .obj fields
  | value => value

def ensureNonEmptyChoices (isChat : Bool) : Json → Json
  | .obj fields =>
    match Json.Fields.get fields "choices" with
    | some (.arr []) =>
      let placeholder := if isChat then
          Json.obj [("delta", .obj []), ("finish_reason", .null), ("index", .num 0)]
        else .obj [("finish_reason", .null), ("index", .num 0), ("text", .str "")]
      .obj (Json.Fields.insert "choices" (.arr [placeholder]) fields)
    | _ => .obj fields
  | value => value

/-- The special prefix goes in front of the first content that is not empty. -/
def applyPrefix (value : Json) (applied : Bool) : Json × Bool :=
  if !applied && cfg.specialPrefix ≠ "" then
    match value.pointer cfg.contentPointer with
    | some (.str s) =>
      if s = "" then (value, applied)
      else
        (value.pointerModify (fun _ ↦ .str (cfg.specialPrefix ++ s)) cfg.contentPointer, true)
    | _ => (value, applied)
  else (value, applied)

def transformChunk (value : Json) (t : ThinkingStreamTransformer) :
    Json × ThinkingStreamTransformer :=
  if cfg.applyThinking then
    match value.pointer deltaPointer with
    | some delta =>
      let r := t.transformDelta delta
      (value.pointerModify (fun _ ↦ r.1) deltaPointer, r.2)
    | none => (value, t)
  else (value, t)

def echoModel (value : Json) : Json :=
  if cfg.echoInboundModel then rewriteChunkModel cfg.modelName value else value

def onDone (s : StreamState) : List SseEvent × StreamState :=
  let s := { s with doneFlag := true, outcome := s.outcome.mark .completed }
  if cfg.applyThinking then
    let r := s.transformer.finalize
    let s := { s with transformer := r.2 }
    match r.1 with
    | some delta => ([.flush delta, .done], s.send (texts.render (flushChunk delta)))
    | none => ([.done], s)
  else ([.done], s)

def onRoundtrip (s : StreamState) (data : String) : List SseEvent × StreamState :=
  match texts.simdFromStr data with
  | .ok value =>
    let (value, applied) := applyPrefix cfg value s.prefixApplied
    let (value, transformer) := transformChunk cfg value s.transformer
    let value := echoModel cfg (ensureNonEmptyChoices cfg.isChat value)
    ([.chunk value],
      { s with prefixApplied := applied, transformer := transformer }.send (texts.render value))
  | .error data => ([.raw data], s)

def onPatched (patch : Json → Json) (s : StreamState) (data : String) :
    List SseEvent × StreamState :=
  match texts.simdFromStr data with
  | .ok value => ([.chunk (patch value)], s.send (texts.render (patch value)))
  | .error data => ([.raw data], s.send data)

def onEvent (s : StreamState) (event : UpstreamEvent) : List SseEvent × StreamState :=
  if event.data = "[DONE]" then onDone texts cfg s
  else if cfg.isChat && isChatCompletionPing texts event then ([.comment "keepalive"], s)
  else if cfg.needsJsonRoundtrip then onRoundtrip texts cfg s event.data
  else if hasEmptyChoicesMarker event.data.toList then
    onPatched texts (fun value ↦ echoModel cfg (ensureNonEmptyChoices cfg.isChat value)) s
      event.data
  else if cfg.echoInboundModel && hasModelFieldMarker event.data.toList then
    onPatched texts (rewriteChunkModel cfg.modelName) s event.data
  else ([.raw event.data], s.send event.data)

def onError (s : StreamState) (error : String) : List SseEvent × StreamState :=
  ([.error cfg.modelName error],
    { s with
      doneFlag := true
      outcome := s.outcome.mark .upstreamError
      logged := s.logged ++ [.upstreamError]
      interruptions := s.interruptions ++ [error] })

def onItem (s : StreamState) : Item → List SseEvent × StreamState
  | .ok event => onEvent texts cfg s event
  | .error error => onError cfg s error

/-- The `flat_map` over the items that have been polled. -/
def flatMap (s : StreamState) : List Item → List SseEvent × StreamState
  | [] => ([], s)
  | item :: items =>
    let r := onItem texts cfg s item
    let r' := flatMap r.2 items
    (r.1 ++ r'.1, r'.2)

def terminateOnError : List Item → List Item
  | [] => []
  | .error error :: _ => [.error error]
  | .ok event :: items => .ok event :: terminateOnError items

def doneSentinel (flag : Bool) : List SseEvent := if flag then [] else [.done]

def processStream (items : List Item) : List SseEvent :=
  let r := flatMap texts cfg (.init cfg) (terminateOnError items)
  r.1 ++ doneSentinel r.2.doneFlag

end QueQiao.StreamHandler
