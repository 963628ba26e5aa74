import QueQiao.Handlers.LoggedBodies

namespace QueQiao.StreamLoggers

open StreamHandler Json AnthropicStreamAccumulator
open Lib.Transition (foldlM_seen)

structure MessageEnding where
  stopReason : Option String := none
  stopSequence : Option Json := none

def MessageEnding.handle (ending : MessageEnding) (chunk : Json) : MessageEnding :=
  if isType chunk "message_delta" then
    match chunk.get "delta" with
    | some delta => ⟨textOf delta "stop_reason", delta.get "stop_sequence"⟩
    | none => ending
  else ending

def messageJson (id model : String) (content : List Json) (ending : MessageEnding)
    (usage : Json) : Json :=
  .obj [("content", .arr content), ("id", .str id), ("model", .str model),
    ("role", .str "assistant"), ("stop_reason", orNull ending.stopReason),
    ("stop_sequence", ending.stopSequence.getD .null), ("type", .str "message"), ("usage", usage)]

def toFinalResponseJson (acc : AnthropicStreamAccumulator) (ending : MessageEnding) : Json :=
  let sorted := acc.contentBlocks.mergeSort fun a b ↦ a.1 ≤ b.1
  messageJson (acc.messageId.getD "unknown") (acc.model.getD "unknown") (sorted.map Prod.snd)
    ending (acc.usage.getD .null)

def emptyMessageJson : Json :=
  messageJson "unknown" "unknown" [] {}
    (.obj [("input_tokens", .num 0), ("output_tokens", .num 0)])

def emptyResponseJson : Json :=
  .obj [("object", .str "response"), ("output", .arr []),
    ("usage", .obj [("input_tokens", .num 0), ("output_tokens", .num 0),
      ("total_tokens", .num 0)])]

section

variable (serdeFromStr : String → Option Json) (args : LoggerArgs) (outcome : StreamOutcome)
variable (received : List String)

def receiveEnding (ending : MessageEnding) : List String → MessageEnding
  | [] => ending
  | chunkStr :: received =>
    match serdeFromStr chunkStr with
    | none => receiveEnding ending received
    | some chunk =>
      if isType chunk "message_stop" then ending else receiveEnding (ending.handle chunk) received

/-- The records that a task writes with their responses; a panic is `none`. -/
abbrev Audit := Option (List (AuditRecord × Json))

def streamLoggerAudit : Audit :=
  let s := received.foldl (ChatLog.receive serdeFromStr) {}
  let content := received.foldl (ChatContent.receive serdeFromStr args.isChat) {}
  if s.lastChunk.isSome || outcome = .upstreamError then
    (loggedResponse args.isChat s content).map fun response ↦
      [(args.record (outcomeToStatus outcome false), response)]
  else some []

def responsesStreamLoggerAudit : Audit :=
  let finalResponse := received.foldl (receiveResponse serdeFromStr) none
  if finalResponse.isSome || outcome = .upstreamError then
    some [(args.record (outcomeToStatus outcome finalResponse.isSome),
      finalResponse.getD emptyResponseJson)]
  else some []

def anthropicStreamLoggerAudit : Audit :=
  (receiveMessages serdeFromStr {} received).map fun (acc, sawTerminal) ↦
    if acc.hasContent || outcome = .upstreamError then
      [(args.record (outcomeToStatus outcome sawTerminal),
        if acc.hasContent then toFinalResponseJson acc (receiveEnding serdeFromStr {} received)
        else emptyMessageJson)]
    else []

theorem records_streamLoggerAudit :
    ((streamLoggerAudit serdeFromStr args outcome received).getD []).map Prod.fst =
      (streamLoggerTask serdeFromStr args outcome received).records := by
  have hbody := isSome_loggedResponse args.isChat (received.foldl (ChatLog.receive serdeFromStr) {})
    (received.foldl (ChatContent.receive serdeFromStr args.isChat) {})
  rw [streamLoggerAudit, streamLoggerTask, ← hbody]
  generalize loggedResponse args.isChat _ _ = body
  cases body with
  | none => split <;> simp
  | some response => split <;> simp_all

theorem records_responsesStreamLoggerAudit :
    ((responsesStreamLoggerAudit serdeFromStr args outcome received).getD []).map Prod.fst =
      (responsesStreamLoggerTask serdeFromStr args outcome received).records := by
  rw [responsesStreamLoggerAudit, responsesStreamLoggerTask]
  split <;> rfl

theorem records_anthropicStreamLoggerAudit :
    ((anthropicStreamLoggerAudit serdeFromStr args outcome received).getD []).map Prod.fst =
      (anthropicStreamLoggerTask serdeFromStr args outcome received).records := by
  rw [anthropicStreamLoggerAudit, anthropicStreamLoggerTask]
  cases receiveMessages serdeFromStr {} received with
  | none => rfl
  | some r =>
    simp only [Option.map_some, Option.getD_some]
    split <;> rfl

end

def Due (parsed : List Json) (outcome : StreamOutcome) : Prop :=
  parsed ≠ [] ∨ outcome = .upstreamError

/-- No panic, and one record if there has to be one. -/
def AuditedOnce (due : Prop) (audit : Audit) : Prop :=
  ∃ records, audit = some records ∧ (due → records.length = 1)

/-- The last event, or the first one if the last has no choices, takes the content. -/
def Recordable (parsed : List Json) : Prop :=
  ∀ first last, parsed.head? = some first → parsed.getLast? = some last →
    takesContent (if (last.get "choices").isNone then first else last) = true

def untilStop (parsed : List Json) : List Json :=
  parsed.takeWhile fun chunk ↦ !isType chunk "message_stop"

def deltaText (chunk : Json) : Option (String × Bool × String) :=
  (chunk.get "delta").bind fun delta ↦
    (deltaField ((textOf delta "type").getD "")).bind fun (key, append) ↦
      (textOf delta key).map fun text ↦ (key, append, text)

def startsBlock (i : ℕ) (chunk : Json) : Bool :=
  isType chunk "content_block_start" && index chunk == i

/-- The block that the last `content_block_start` of an index starts. -/
def lastStart (events : List Json) (i : ℕ) : Option Json :=
  (events.filter (startsBlock i)).getLast?.map fun chunk ↦
    (chunk.get "content_block").getD (.obj [])

/-- A text delta comes to no block that was started as something else than an object or null. -/
def Fits (before : List Json) (chunk : Json) : Prop :=
  isType chunk "content_block_delta" = true → (deltaText chunk).isSome = true →
    ∀ block, lastStart before (index chunk) = some block → takesFields block = true

def DeltasFit (events : List Json) : Prop :=
  ∀ before chunk after, events = before ++ chunk :: after → Fits before chunk

def touchesBlock (chunk : Json) : Bool :=
  isType chunk "content_block_start" ||
    (isType chunk "content_block_delta" && (chunk.get "delta").isSome)

def startedMessage (chunk : Json) : Option Json :=
  if isType chunk "message_start" then chunk.get "message" else none

/-- A content block, or a last message with an id or a model. -/
def HasContent (events : List Json) : Prop :=
  (∃ chunk ∈ events, touchesBlock chunk = true) ∨
    ∃ msg, (events.filterMap startedMessage).getLast? = some msg ∧
      ((textOf msg "id").isSome = true ∨ (textOf msg "model").isSome = true)

def block (acc : AnthropicStreamAccumulator) (i : ℕ) : Json :=
  (acc.contentBlocks.lookup i).getD (.obj [])

theorem block_insertBlock (acc : AnthropicStreamAccumulator) (i j : ℕ) (v : Json) :
    block (acc.insertBlock i v) j = if j = i then v else block acc j := by
  rw [block, insertBlock, List.lookup_cons]
  by_cases hj : j = i
  · simp [hj]
  · have hlookup : (acc.contentBlocks.filter (·.1 ≠ i)).lookup j = acc.contentBlocks.lookup j := by
      induction acc.contentBlocks with
      | nil => rfl
      | cons b rest ih =>
        obtain ⟨k, w⟩ := b
        by_cases hk : k = i
        · rw [List.filter_cons_of_neg (by simp [hk]), ih, List.lookup_cons,
            beq_eq_false_iff_ne.mpr (hk ▸ hj)]
        · rw [List.filter_cons_of_pos (by simp [hk]), List.lookup_cons, List.lookup_cons, ih]
    rw [beq_eq_false_iff_ne.mpr hj, if_neg hj, hlookup, block]

theorem handleContentBlockDelta_no_text {chunk delta : Json} (acc : AnthropicStreamAccumulator)
    (hdelta : chunk.get "delta" = some delta) (htext : deltaText chunk = none) :
    acc.handleContentBlockDelta chunk =
      some (acc.insertBlock (index chunk) (block acc (index chunk))) := by
  rw [deltaText, hdelta] at htext
  have hfield : ((deltaField ((textOf delta "type").getD "")).bind fun (key, append) ↦
      (textOf delta key).map fun text ↦ (key, append, text)) = none := htext
  simp only [textOf] at hfield
  rw [handleContentBlockDelta, hdelta]
  dsimp only
  rw [hfield]
  rfl

theorem handleContentBlockDelta_text {chunk : Json} (acc : AnthropicStreamAccumulator)
    (htext : (deltaText chunk).isSome = true) :
    ∃ key value, acc.handleContentBlockDelta chunk =
      (setField key value (block acc (index chunk))).map (acc.insertBlock (index chunk)) := by
  obtain ⟨⟨key, append, text⟩, htext⟩ := Option.isSome_iff_exists.mp htext
  obtain ⟨delta, hdelta, hfield⟩ := Option.bind_eq_some_iff.mp htext
  simp only [textOf] at hfield
  rw [handleContentBlockDelta, hdelta]
  dsimp only
  rw [hfield]
  exact ⟨key, _, rfl⟩

theorem isSome_setField (key value : String) (v : Json) :
    (setField key value v).isSome = takesFields v := by
  cases v <;> rfl

theorem takesFields_of_setField {key value : String} {v v' : Json}
    (h : setField key value v = some v') : takesFields v' = true := by
  cases v <;> cases h <;> rfl

structure Tracks (seen : List Json) (acc : AnthropicStreamAccumulator) : Prop where
  blocks : ∀ i, takesFields (block acc i) = takesFields ((lastStart seen i).getD (.obj []))
  isEmpty : acc.contentBlocks = [] ↔ ∀ chunk ∈ seen, touchesBlock chunk = false
  messageId : acc.messageId = (seen.filterMap startedMessage).getLast?.bind (textOf · "id")
  model : acc.model = (seen.filterMap startedMessage).getLast?.bind (textOf · "model")

theorem tracks_nil : Tracks [] {} := ⟨fun _ ↦ rfl, by simp, rfl, rfl⟩

theorem lastStart_concat (seen : List Json) (chunk : Json) (i : ℕ) :
    lastStart (seen ++ [chunk]) i =
      if startsBlock i chunk then some ((chunk.get "content_block").getD (.obj []))
      else lastStart seen i := by
  rw [lastStart, List.filter_append]
  split
  · rename_i h
    rw [List.filter_cons_of_pos h, List.filter_nil, List.getLast?_concat]
    rfl
  · rename_i h
    rw [List.filter_cons_of_neg h, List.filter_nil, List.append_nil]
    rfl

theorem lastStart_concat_of_not (seen : List Json) {chunk : Json}
    (h : isType chunk "content_block_start" = false) (i : ℕ) :
    lastStart (seen ++ [chunk]) i = lastStart seen i := by
  rw [lastStart_concat, startsBlock, h, Bool.false_and, if_neg Bool.false_ne_true]

theorem startedMessages_concat (seen : List Json) (chunk : Json) :
    ((seen ++ [chunk]).filterMap startedMessage).getLast? =
      (startedMessage chunk).or (seen.filterMap startedMessage).getLast? := by
  rw [List.filterMap_append]
  cases h : startedMessage chunk with
  | none => rw [List.filterMap_cons_none h, List.filterMap_nil, List.append_nil]; rfl
  | some msg => rw [List.filterMap_cons_some h, List.filterMap_nil, List.getLast?_concat]; rfl

theorem startedMessage_of_not {chunk : Json} (h : isType chunk "message_start" = false) :
    startedMessage chunk = none := by
  rw [startedMessage, h, if_neg Bool.false_ne_true]

theorem touched_concat_iff (seen : List Json) (chunk : Json) :
    (∀ c ∈ seen ++ [chunk], touchesBlock c = false) ↔
      (∀ c ∈ seen, touchesBlock c = false) ∧ touchesBlock chunk = false := by
  simp only [List.mem_append, List.mem_singleton, or_imp, forall_and, forall_eq]

theorem Tracks.message {seen : List Json} {acc acc' : AnthropicStreamAccumulator} {chunk : Json}
    (h : Tracks seen acc) (hblocks : acc'.contentBlocks = acc.contentBlocks)
    (hstart : isType chunk "content_block_start" = false) (htouch : touchesBlock chunk = false)
    (hid : acc'.messageId = ((startedMessage chunk).map (textOf · "id")).getD acc.messageId)
    (hmodel : acc'.model = ((startedMessage chunk).map (textOf · "model")).getD acc.model) :
    Tracks (seen ++ [chunk]) acc' where
  blocks i := by
    rw [lastStart_concat_of_not seen hstart, ← h.blocks i, block, block, hblocks]
  isEmpty := by
    rw [hblocks, h.isEmpty, touched_concat_iff, and_iff_left htouch]
  messageId := by
    rw [startedMessages_concat, hid, h.messageId]
    cases startedMessage chunk <;> rfl
  model := by
    rw [startedMessages_concat, hmodel, h.model]
    cases startedMessage chunk <;> rfl

theorem Tracks.insertBlock {seen : List Json} {acc : AnthropicStreamAccumulator} {chunk v : Json}
    (h : Tracks seen acc) (hstart : isType chunk "message_start" = false)
    (htouch : touchesBlock chunk = true)
    (htakes : takesFields v =
      takesFields ((lastStart (seen ++ [chunk]) (index chunk)).getD (.obj []))) :
    Tracks (seen ++ [chunk]) (acc.insertBlock (index chunk) v) where
  blocks i := by
    rw [block_insertBlock]
    split
    · rename_i hi
      rw [htakes, hi]
    · rename_i hi
      have hnot : startsBlock i chunk = false := by
        rw [startsBlock, beq_eq_false_iff_ne.mpr (Ne.symm hi), Bool.and_false]
      rw [h.blocks i, lastStart_concat, if_neg (by rw [hnot]; exact Bool.false_ne_true)]
  isEmpty := by
    rw [touched_concat_iff, htouch]
    simp [AnthropicStreamAccumulator.insertBlock]
  messageId := by
    rw [startedMessages_concat, startedMessage_of_not hstart]
    exact h.messageId
  model := by
    rw [startedMessages_concat, startedMessage_of_not hstart]
    exact h.model

theorem touchesBlock_of_not {chunk : Json} (hstart : isType chunk "content_block_start" = false)
    (hdelta : isType chunk "content_block_delta" = false) : touchesBlock chunk = false := by
  rw [touchesBlock, hstart, hdelta, Bool.false_and, Bool.or_false]

theorem Tracks.handleMessageStart {seen : List Json} {acc : AnthropicStreamAccumulator}
    {chunk : Json} (h : Tracks seen acc) (htype : isType chunk "message_start" = true) :
    Tracks (seen ++ [chunk]) (acc.handleMessageStart chunk) := by
  have hstart := isType_unique htype "content_block_start" (by decide)
  have hdelta := isType_unique htype "content_block_delta" (by decide)
  have hmsg : startedMessage chunk = chunk.get "message" := by rw [startedMessage, if_pos htype]
  have htouch := touchesBlock_of_not hstart hdelta
  unfold AnthropicStreamAccumulator.handleMessageStart
  cases hget : chunk.get "message" with
  | none =>
    rw [hget] at hmsg
    exact h.message rfl hstart htouch (by rw [hmsg]; rfl) (by rw [hmsg]; rfl)
  | some msg =>
    rw [hget] at hmsg
    exact h.message rfl hstart htouch (by rw [hmsg]; rfl) (by rw [hmsg]; rfl)

theorem Tracks.handleContentBlockStart {seen : List Json} {acc : AnthropicStreamAccumulator}
    {chunk : Json} (h : Tracks seen acc) (htype : isType chunk "content_block_start" = true) :
    Tracks (seen ++ [chunk]) (acc.handleContentBlockStart chunk) := by
  have hmessage := isType_unique htype "message_start" (by decide)
  have hstarts : startsBlock (index chunk) chunk = true := by
    rw [startsBlock, htype, beq_self_eq_true, Bool.and_true]
  refine h.insertBlock hmessage ?_ ?_
  · rw [touchesBlock, htype, Bool.true_or]
  · rw [lastStart_concat, if_pos hstarts]
    rfl

theorem Tracks.handleContentBlockDelta {seen : List Json} {acc acc' : AnthropicStreamAccumulator}
    {chunk : Json} (h : Tracks seen acc) (htype : isType chunk "content_block_delta" = true)
    (hacc : acc.handleContentBlockDelta chunk = some acc') : Tracks (seen ++ [chunk]) acc' := by
  have hmessage := isType_unique htype "message_start" (by decide)
  have hstart := isType_unique htype "content_block_start" (by decide)
  cases hdelta : chunk.get "delta" with
  | none =>
    have heq : acc.handleContentBlockDelta chunk = some acc := by
      rw [AnthropicStreamAccumulator.handleContentBlockDelta, hdelta]
    obtain rfl := Option.some.inj (heq.symm.trans hacc)
    refine h.message rfl hstart ?_ ?_ ?_
    · rw [touchesBlock, hstart, hdelta, Option.isSome_none, Bool.and_false, Bool.or_false]
    · rw [startedMessage_of_not hmessage]
      rfl
    · rw [startedMessage_of_not hmessage]
      rfl
  | some delta =>
    have htouch : touchesBlock chunk = true := by
      rw [touchesBlock, htype, hdelta, Option.isSome_some, Bool.and_true, Bool.or_true]
    cases htext : (deltaText chunk).isSome with
    | false =>
      have hnone : deltaText chunk = none := Option.not_isSome_iff_eq_none.mp (by simp [htext])
      rw [handleContentBlockDelta_no_text acc hdelta hnone] at hacc
      obtain rfl := Option.some.inj hacc
      refine h.insertBlock hmessage htouch ?_
      rw [lastStart_concat_of_not seen hstart, h.blocks]
    | true =>
      obtain ⟨key, value, heq⟩ := handleContentBlockDelta_text acc htext
      rw [heq] at hacc
      obtain ⟨v, hset, rfl⟩ := Option.map_eq_some_iff.mp hacc
      refine h.insertBlock hmessage htouch ?_
      have htakes : takesFields (block acc (index chunk)) = true := by
        rw [← isSome_setField key value, hset, Option.isSome_some]
      rw [lastStart_concat_of_not seen hstart, ← h.blocks, htakes]
      exact takesFields_of_setField hset

theorem Tracks.other {seen : List Json} {acc acc' : AnthropicStreamAccumulator} {chunk : Json}
    (h : Tracks seen acc) (hmessage : isType chunk "message_start" = false)
    (hstart : isType chunk "content_block_start" = false)
    (hdelta : isType chunk "content_block_delta" = false)
    (hblocks : acc'.contentBlocks = acc.contentBlocks) (hid : acc'.messageId = acc.messageId)
    (hmodel : acc'.model = acc.model) : Tracks (seen ++ [chunk]) acc' := by
  refine h.message hblocks hstart (touchesBlock_of_not hstart hdelta) ?_ ?_
  · rw [startedMessage_of_not hmessage]
    exact hid
  · rw [startedMessage_of_not hmessage]
    exact hmodel

theorem Tracks.handle {seen : List Json} {acc acc' : AnthropicStreamAccumulator} {chunk : Json}
    (h : Tracks seen acc) (hacc : acc.handle chunk = some acc') :
    Tracks (seen ++ [chunk]) acc' := by
  rw [AnthropicStreamAccumulator.handle] at hacc
  by_cases hmessage : isType chunk "message_start" = true
  · rw [if_pos hmessage] at hacc
    exact Option.some.inj hacc ▸ h.handleMessageStart hmessage
  rw [if_neg hmessage] at hacc
  by_cases hstart : isType chunk "content_block_start" = true
  · rw [if_pos hstart] at hacc
    exact Option.some.inj hacc ▸ h.handleContentBlockStart hstart
  rw [if_neg hstart] at hacc
  by_cases hdelta : isType chunk "content_block_delta" = true
  · rw [if_pos hdelta] at hacc
    exact h.handleContentBlockDelta hdelta hacc
  rw [if_neg hdelta] at hacc
  rw [Bool.not_eq_true] at hmessage hstart hdelta
  split at hacc
  · cases hacc
    exact h.other hmessage hstart hdelta rfl rfl rfl
  · cases hacc
    exact h.other hmessage hstart hdelta rfl rfl rfl

theorem isSome_handle_iff {seen : List Json} {acc : AnthropicStreamAccumulator}
    (h : Tracks seen acc) (chunk : Json) : (acc.handle chunk).isSome = true ↔ Fits seen chunk := by
  by_cases hdelta : isType chunk "content_block_delta" = true
  · have hmessage := isType_unique hdelta "message_start" (by decide)
    have hstart := isType_unique hdelta "content_block_start" (by decide)
    have heq : acc.handle chunk = acc.handleContentBlockDelta chunk := by
      rw [AnthropicStreamAccumulator.handle, hmessage, hstart, hdelta]
      rfl
    rw [heq, Fits, forall_prop_of_true hdelta]
    by_cases htext : (deltaText chunk).isSome = true
    · obtain ⟨key, value, hset⟩ := handleContentBlockDelta_text acc htext
      rw [hset, Option.isSome_map, isSome_setField, h.blocks, forall_prop_of_true htext]
      cases lastStart seen (index chunk) with
      | none => simp [takesFields]
      | some v => simp
    · refine iff_of_true ?_ fun htext' ↦ absurd htext' htext
      cases hget : chunk.get "delta" with
      | none => rw [AnthropicStreamAccumulator.handleContentBlockDelta, hget]; rfl
      | some delta =>
        rw [handleContentBlockDelta_no_text acc hget (Option.not_isSome_iff_eq_none.mp htext)]
        rfl
  · refine iff_of_true ?_ fun hdelta' ↦ absurd hdelta' hdelta
    rw [AnthropicStreamAccumulator.handle]
    split_ifs <;> rfl

/-- The events before `message_stop`, one after another. -/
def handleAll (acc : AnthropicStreamAccumulator) (events : List Json) :
    Option AnthropicStreamAccumulator :=
  events.foldlM (fun acc chunk ↦ acc.handle chunk) acc

theorem Tracks.handleAll {seen events : List Json} {acc acc' : AnthropicStreamAccumulator}
    (h : Tracks seen acc) (hacc : StreamLoggers.handleAll acc events = some acc') :
    Tracks (seen ++ events) acc' :=
  foldlM_seen (fun _ _ _ _ h hnext ↦ h.handle hnext) h hacc

theorem isSome_handleAll_iff {seen events : List Json} {acc : AnthropicStreamAccumulator}
    (h : Tracks seen acc) : (handleAll acc events).isSome = true ↔
      ∀ before chunk after, events = before ++ chunk :: after → Fits (seen ++ before) chunk := by
  induction events generalizing seen acc with
  | nil => simp [StreamLoggers.handleAll]
  | cons chunk events ih =>
    have hsplit : (∀ before c after, chunk :: events = before ++ c :: after →
        Fits (seen ++ before) c) ↔ Fits seen chunk ∧
          ∀ before c after, events = before ++ c :: after →
            Fits (seen ++ [chunk] ++ before) c := by
      constructor
      · intro hall
        refine ⟨by simpa using hall [] chunk events rfl, fun before c after heq ↦ ?_⟩
        simpa using hall (chunk :: before) c after (by rw [heq]; rfl)
      · intro hall before c after heq
        cases before with
        | nil =>
          obtain ⟨rfl, -⟩ := List.cons.inj heq
          simpa using hall.1
        | cons b before =>
          obtain ⟨rfl, hrest⟩ := List.cons.inj heq
          simpa using hall.2 before c after hrest
    rw [hsplit, ← isSome_handle_iff h chunk]
    have hcons : handleAll acc (chunk :: events) =
        (acc.handle chunk).bind fun acc ↦ StreamLoggers.handleAll acc events := rfl
    rw [hcons]
    cases hnext : acc.handle chunk with
    | none => simp
    | some next =>
      rw [Option.bind_some, ih (h.handle hnext)]
      simp

section

variable (serdeFromStr : String → Option Json)

theorem receiveMessages_eq (acc : AnthropicStreamAccumulator) (received : List String) :
    ∃ stop, receiveMessages serdeFromStr acc received =
      (handleAll acc (untilStop (received.filterMap serdeFromStr))).map (·, stop) := by
  induction received generalizing acc with
  | nil => exact ⟨false, rfl⟩
  | cons chunkStr received ih =>
    rw [receiveMessages]
    cases hchunk : serdeFromStr chunkStr with
    | none =>
      rw [List.filterMap_cons_none hchunk]
      exact ih acc
    | some chunk =>
      rw [List.filterMap_cons_some hchunk, untilStop, List.takeWhile_cons]
      dsimp only
      cases hstop : isType chunk "message_stop" with
      | true => exact ⟨true, rfl⟩
      | false =>
        have hcons : handleAll acc (chunk :: untilStop (received.filterMap serdeFromStr)) =
            (acc.handle chunk).bind fun acc ↦
              handleAll acc (untilStop (received.filterMap serdeFromStr)) := rfl
        rw [Bool.not_false, if_pos rfl, ← untilStop, hcons]
        cases acc.handle chunk with
        | none => exact ⟨false, rfl⟩
        | some next => exact ih next

theorem Tracks.hasContent_iff {seen : List Json} {acc : AnthropicStreamAccumulator}
    (h : Tracks seen acc) : acc.hasContent = true ↔ HasContent seen := by
  have hblocks : (!acc.contentBlocks.isEmpty) = true ↔
      ∃ chunk ∈ seen, touchesBlock chunk = true := by
    rw [Bool.not_eq_true', ← Bool.not_eq_true, List.isEmpty_iff, h.isEmpty]
    push Not
    simp only [Bool.not_eq_false]
  rw [hasContent, Bool.or_eq_true, Bool.or_eq_true, hblocks, h.messageId, h.model, HasContent,
    or_assoc]
  cases (seen.filterMap startedMessage).getLast? <;> simp

variable (args : LoggerArgs) (outcome : StreamOutcome) (received : List String)

theorem auditedOnce_map_iff {due : Prop} {body : Option Json} (f : Json → AuditRecord × Json) :
    AuditedOnce due (body.map fun response ↦ [f response]) ↔ body.isSome = true := by
  constructor
  · rintro ⟨records, heq, -⟩
    cases body with
    | none => cases heq
    | some response => rfl
  · intro h
    obtain ⟨response, rfl⟩ := Option.isSome_iff_exists.mp h
    exact ⟨_, rfl, fun _ ↦ rfl⟩

theorem auditedOnce_nil_iff {due : Prop} : AuditedOnce due (some []) ↔ ¬due := by
  constructor
  · rintro ⟨records, heq, hlength⟩ hdue
    obtain rfl := Option.some.inj heq
    cases hlength hdue
  · intro h
    exact ⟨[], rfl, fun hdue ↦ absurd hdue h⟩

theorem streamLoggerAudit_once_iff :
    AuditedOnce (Due (chunks serdeFromStr received) outcome)
        (streamLoggerAudit serdeFromStr args outcome received) ↔
      Recordable (chunks serdeFromStr received) := by
  have hseen := seen_foldl serdeFromStr received
  have hbody := isSome_loggedResponse args.isChat
    (received.foldl (ChatLog.receive serdeFromStr) {})
    (received.foldl (ChatContent.receive serdeFromStr args.isChat) {})
  rw [ChatLog.finalChunk, hseen.last, hseen.first] at hbody
  rw [streamLoggerAudit, hseen.last]
  generalize loggedResponse args.isChat _ _ = body at hbody ⊢
  generalize chunks serdeFromStr received = parsed at hbody ⊢
  cases hlast : parsed.getLast? with
  | none =>
    rw [List.getLast?_eq_none_iff] at hlast
    subst hlast
    have hvacuous : Recordable [] := fun first last hfirst ↦ by cases hfirst
    refine iff_of_true ?_ hvacuous
    split
    · exact (auditedOnce_map_iff _).mpr hbody
    · rename_i hnot
      rw [auditedOnce_nil_iff]
      simpa [Due] using hnot
  | some last =>
    obtain ⟨first, hfirst⟩ : ∃ first, parsed.head? = some first := by
      cases parsed with
      | nil => cases hlast
      | cons first rest => exact ⟨first, rfl⟩
    rw [hlast, hfirst] at hbody
    rw [Option.isSome_some, Bool.true_or, if_pos rfl, auditedOnce_map_iff, hbody, Recordable]
    constructor
    · intro h first' last' hfirst' hlast'
      obtain rfl := Option.some.inj (hfirst.symm.trans hfirst')
      obtain rfl := Option.some.inj (hlast.symm.trans hlast')
      exact h
    · intro h
      exact h first last hfirst hlast

theorem responsesStreamLoggerAudit_once_iff :
    AuditedOnce (Due (received.filterMap serdeFromStr) outcome)
        (responsesStreamLoggerAudit serdeFromStr args outcome received) ↔
      received.filterMap serdeFromStr = [] ∨ outcome = .upstreamError ∨
        ∃ chunk ∈ received.filterMap serdeFromStr, (completedResponse chunk).isSome = true := by
  have hfinal := foldl_receiveResponse serdeFromStr received none
  have hcompleted : completedResponses serdeFromStr received =
      (received.filterMap serdeFromStr).filterMap completedResponse :=
    List.filterMap_filterMap.symm
  rw [Option.or_none, hcompleted] at hfinal
  rw [responsesStreamLoggerAudit, hfinal]
  generalize received.filterMap serdeFromStr = parsed
  have hsome : (parsed.filterMap completedResponse).getLast?.isSome = true ↔
      ∃ chunk ∈ parsed, (completedResponse chunk).isSome = true := by
    rw [List.getLast?_isSome, ne_eq, List.filterMap_eq_nil_iff]
    push Not
    simp only [Option.ne_none_iff_isSome]
  split
  · rename_i h
    rw [Bool.or_eq_true, decide_eq_true_eq, hsome] at h
    exact iff_of_true ⟨_, rfl, fun _ ↦ rfl⟩ (.inr h.symm)
  · rename_i h
    rw [Bool.or_eq_true, decide_eq_true_eq, hsome, not_or] at h
    rw [auditedOnce_nil_iff, Due, not_or, not_not]
    constructor
    · intro hsilent
      exact .inl hsilent.1
    · intro hcases
      obtain hnil | herror | hsome := hcases
      · exact ⟨hnil, h.2⟩
      · exact absurd herror h.2
      · exact absurd hsome h.1

theorem anthropicStreamLoggerAudit_once_iff :
    AuditedOnce (Due (received.filterMap serdeFromStr) outcome)
        (anthropicStreamLoggerAudit serdeFromStr args outcome received) ↔
      DeltasFit (untilStop (received.filterMap serdeFromStr)) ∧
        (received.filterMap serdeFromStr = [] ∨ outcome = .upstreamError ∨
          HasContent (untilStop (received.filterMap serdeFromStr))) := by
  obtain ⟨stop, hrun⟩ := receiveMessages_eq serdeFromStr {} received
  rw [anthropicStreamLoggerAudit, hrun]
  generalize received.filterMap serdeFromStr = parsed
  have hfit : (handleAll {} (untilStop parsed)).isSome = true ↔ DeltasFit (untilStop parsed) :=
    isSome_handleAll_iff tracks_nil
  rw [← hfit]
  cases hacc : handleAll {} (untilStop parsed) with
  | none =>
    constructor
    · rintro ⟨records, heq, -⟩
      cases heq
    · rintro ⟨h, -⟩
      cases h
  | some acc =>
    have htracks : Tracks (untilStop parsed) acc := tracks_nil.handleAll hacc
    rw [Option.isSome_some, and_iff_right rfl, ← htracks.hasContent_iff]
    simp only [Option.map_some]
    split
    · rename_i h
      rw [Bool.or_eq_true, decide_eq_true_eq] at h
      exact iff_of_true ⟨_, rfl, fun _ ↦ rfl⟩ (.inr h.symm)
    · rename_i h
      rw [Bool.or_eq_true, decide_eq_true_eq, not_or] at h
      rw [auditedOnce_nil_iff, Due, not_or, not_not]
      constructor
      · intro hsilent
        exact .inl hsilent.1
      · rintro (hnil | herror | hcontent)
        · exact ⟨hnil, h.2⟩
        · exact absurd herror h.2
        · exact absurd hcontent h.1

/-- When each of the three tasks ends without a panic and with the record that it owes. -/
theorem streamLoggers_audited_iff :
    (AuditedOnce (Due (chunks serdeFromStr received) outcome)
        (streamLoggerAudit serdeFromStr args outcome received) ↔
      Recordable (chunks serdeFromStr received)) ∧
    (AuditedOnce (Due (received.filterMap serdeFromStr) outcome)
        (responsesStreamLoggerAudit serdeFromStr args outcome received) ↔
      received.filterMap serdeFromStr = [] ∨ outcome = .upstreamError ∨
        ∃ chunk ∈ received.filterMap serdeFromStr, (completedResponse chunk).isSome = true) ∧
    (AuditedOnce (Due (received.filterMap serdeFromStr) outcome)
        (anthropicStreamLoggerAudit serdeFromStr args outcome received) ↔
      DeltasFit (untilStop (received.filterMap serdeFromStr)) ∧
        (received.filterMap serdeFromStr = [] ∨ outcome = .upstreamError ∨
          HasContent (untilStop (received.filterMap serdeFromStr)))) :=
  ⟨streamLoggerAudit_once_iff serdeFromStr args outcome received,
    responsesStreamLoggerAudit_once_iff serdeFromStr args outcome received,
    anthropicStreamLoggerAudit_once_iff serdeFromStr args outcome received⟩

end

def sampleEvents : List (String × Json) :=
  [("\x7b\"choices\":[1]\x7d", .obj [("choices", .arr [.num 1])]),
    ("\x7b\"type\":\"response.failed\"\x7d", .obj [("type", .str "response.failed")]),
    ("\x7b\"content_block\":\"x\",\"type\":\"content_block_start\"\x7d",
      .obj [("content_block", .str "x"), ("type", .str "content_block_start")]),
    ("\x7b\"delta\":\x7b\"text\":\"a\",\"type\":\"text_delta\"\x7d,\"type\":\"content_block_delta\"\x7d",
      .obj [("delta", .obj [("text", .str "a"), ("type", .str "text_delta")]),
        ("type", .str "content_block_delta")])]

def sampleParse (text : String) : Option Json := sampleEvents.lookup text

def sampleArgs : LoggerArgs := ⟨true, "m", "a", "/v1/chat/completions", "200", 1⟩

def sampleTexts : List String := sampleEvents.map Prod.fst

/-- A choice that is a number, a response that fails, and a delta for a block that is a text. -/
theorem streamLoggers_not_audited :
    ¬AuditedOnce (Due (chunks sampleParse (sampleTexts.take 1)) .completed)
        (streamLoggerAudit sampleParse sampleArgs .completed (sampleTexts.take 1)) ∧
    ¬AuditedOnce (Due (((sampleTexts.drop 1).take 1).filterMap sampleParse) .completed)
        (responsesStreamLoggerAudit sampleParse sampleArgs .completed
          ((sampleTexts.drop 1).take 1)) ∧
    ¬AuditedOnce (Due ((sampleTexts.drop 2).filterMap sampleParse) .completed)
        (anthropicStreamLoggerAudit sampleParse sampleArgs .completed
          (sampleTexts.drop 2)) := by
  refine ⟨?_, ?_, ?_⟩
  · rintro ⟨records, h, -⟩
    have hnone : streamLoggerAudit sampleParse sampleArgs .completed
        (sampleTexts.take 1) = none := rfl
    rw [hnone] at h
    cases h
  · rintro ⟨records, h, hlength⟩
    have hempty : responsesStreamLoggerAudit sampleParse sampleArgs .completed
        ((sampleTexts.drop 1).take 1) = some [] := rfl
    rw [hempty] at h
    obtain rfl := Option.some.inj h
    cases hlength (.inl (List.cons_ne_nil _ _))
  · rintro ⟨records, h, -⟩
    have hnone : anthropicStreamLoggerAudit sampleParse sampleArgs .completed
        (sampleTexts.drop 2) = none := rfl
    rw [hnone] at h
    cases h

end QueQiao.StreamLoggers
