import Mathlib.Data.List.DropRight
import QueQiao.Handlers.ErrorLog
import QueQiao.Handlers.ThinkingTransformer
import QueQiao.Models.Messages

namespace QueQiao.MessageUtils

open ErrorLogApi (Text trim trimStart trimEnd)
open ThinkingTransformer (thinkBlocks)

def trimmed (s : String) : String := String.ofList (trim s.toList)

def sanitizePart (part : ContentPart) : ContentPart :=
  if part.type = "text" then { part with text := part.text.map trimmed } else part

def sanitizeContent : MessageContent → MessageContent
  | .string c => .string (trimmed c)
  | .array parts => .array (parts.map sanitizePart)

def sanitizeMsg (msg : Message) : Message := { msg with content := msg.content.map sanitizeContent }

def msgIsEmpty (msg : Message) : Bool :=
  match msg.content with
  | some (.string c) => decide (c = "")
  | some (.array parts) => parts.isEmpty
  | none => true

def hasContent (message : Message) : Bool :=
  match message.content with
  | some (.string c) => !trimIsEmpty c
  | some (.array parts) => !parts.isEmpty
  | none => false

def nonEmpty (s : Option String) : Bool := s.any fun v ↦ !trimIsEmpty v

def hasReasoning (message : Message) : Bool :=
  nonEmpty message.reasoning || nonEmpty message.reasoningContent

def processMessages (messages : List Message) : List Message :=
  (messages.map sanitizeMsg).filter fun msg ↦
    !(msgIsEmpty msg && msg.toolCalls.isNone && !hasReasoning msg)

def filterEmptyMessages (messages : List Message) : List Message :=
  messages.filter fun message ↦
    hasContent message || message.toolCalls.isSome || hasReasoning message

def withoutThinkTags (content : String) : String := String.ofList (thinkBlocks content.toList).2

def removeThinkTag (message : Message) : Message :=
  if message.role = "assistant" then
    match message.content with
    | some (.string content) => { message with content := some (.string (withoutThinkTags content)) }
    | _ => message
  else message

def removeThinkTags (messages : List Message) : List Message := messages.map removeThinkTag

/-- `prepare_chat_request`, on the messages of the request. -/
def prepareChatRequest (messages : List Message) : List Message :=
  removeThinkTags (filterEmptyMessages (processMessages messages))

theorem trim_eq_nil_iff (s : Text) : trim s = [] ↔ ∀ c ∈ s, isWhiteSpace c = true := by
  have hend : trim s = (trimStart s).rdropWhile isWhiteSpace := rfl
  rw [hend, List.rdropWhile_eq_nil_iff]
  constructor
  · intro hall c hc
    by_contra hcw
    have hnil : trimStart s ≠ [] := by
      intro hnil
      exact hcw (List.dropWhile_eq_nil_iff.mp hnil c hc)
    have hhead := List.head_dropWhile_not isWhiteSpace hnil
    exact Bool.false_ne_true (hhead.symm.trans (hall _ (List.head_mem hnil)))
  · intro hall c hc
    exact hall c ((List.dropWhile_suffix _).subset hc)

theorem trimStart_of_prefix {s t : Text} (hs : trimStart s = s) (h : t <+: s) :
    trimStart t = t := by
  cases t with
  | nil => rfl
  | cons c t =>
    obtain ⟨rest, rfl⟩ := h
    have hc : isWhiteSpace c = false := by
      by_contra hc
      have hlength := congrArg List.length hs
      rw [List.cons_append, trimStart, List.dropWhile_cons_of_pos (by simpa using hc)] at hlength
      have hle := List.length_dropWhile_le isWhiteSpace (t ++ rest)
      rw [hlength, List.length_cons] at hle
      omega
    rw [trimStart, List.dropWhile_cons_of_neg (by simp [hc])]

theorem trim_trim (s : Text) : trim (trim s) = trim s := by
  have hstart : trimStart (trimStart s) = trimStart s := List.dropWhile_idempotent _ _
  have hprefix : trim s <+: trimStart s := List.rdropWhile_prefix isWhiteSpace _
  have hfront : trimStart (trim s) = trim s := trimStart_of_prefix hstart hprefix
  have hback : trimEnd (trim s) = trim s := List.rdropWhile_idempotent isWhiteSpace (trimStart s)
  rw [trim, hfront, hback]

theorem trimmed_trimmed (s : String) : trimmed (trimmed s) = trimmed s := by
  rw [trimmed, trimmed, String.toList_ofList, trim_trim]

theorem trimIsEmpty_iff (s : String) : trimIsEmpty s = true ↔ trimmed s = "" := by
  rw [trimIsEmpty, List.all_eq_true, ← trim_eq_nil_iff, trimmed, ← String.toList_inj,
    String.toList_ofList]
  rfl

theorem trimIsEmpty_trimmed (s : String) : trimIsEmpty (trimmed s) = trimIsEmpty s := by
  rw [Bool.eq_iff_iff, trimIsEmpty_iff, trimIsEmpty_iff, trimmed_trimmed]

def keeps (message : Message) : Bool :=
  hasContent message || message.toolCalls.isSome || hasReasoning message

def cleaned (message : Message) : Message := removeThinkTag (sanitizeMsg message)

def cleanedContent (role : String) : MessageContent → MessageContent
  | .string c => .string (if role = "assistant" then withoutThinkTags (trimmed c) else trimmed c)
  | .array parts => .array (parts.map sanitizePart)

theorem cleaned_eq (message : Message) :
    cleaned message = { message with
      content := message.content.map (cleanedContent message.role) } := by
  obtain ⟨role, content, reasoning, reasoningContent, toolCalls, toolCallId⟩ := message
  rw [cleaned, removeThinkTag]
  cases content with
  | none =>
    split
    · rfl
    · rfl
  | some content =>
    by_cases hrole : role = "assistant"
    · cases content <;> simp [sanitizeMsg, sanitizeContent, cleanedContent, hrole]
    · cases content <;> simp [sanitizeMsg, sanitizeContent, cleanedContent, hrole]

theorem hasContent_sanitizeMsg (message : Message) :
    hasContent (sanitizeMsg message) = hasContent message := by
  rw [hasContent, hasContent, sanitizeMsg]
  cases message.content with
  | none => rfl
  | some content =>
    cases content with
    | string c => exact congrArg not (trimIsEmpty_trimmed c)
    | array parts => exact congrArg not (by simp)

theorem msgIsEmpty_sanitizeMsg (message : Message) :
    msgIsEmpty (sanitizeMsg message) = !hasContent message := by
  rw [hasContent, msgIsEmpty, sanitizeMsg]
  cases message.content with
  | none => rfl
  | some content =>
    cases content with
    | string c =>
      have hempty : decide (trimmed c = "") = trimIsEmpty c := by
        rw [Bool.eq_iff_iff, decide_eq_true_iff, trimIsEmpty_iff]
      exact hempty.trans (Bool.not_not _).symm
    | array parts => simp [sanitizeContent]

theorem keeps_sanitizeMsg (message : Message) : keeps (sanitizeMsg message) = keeps message := by
  rw [keeps, hasContent_sanitizeMsg]
  rfl

theorem prepareChatRequest_eq (messages : List Message) :
    prepareChatRequest messages = (messages.filter keeps).map cleaned := by
  have hprocess : processMessages messages = (messages.filter keeps).map sanitizeMsg := by
    rw [processMessages, List.filter_map]
    congr 1
    apply List.filter_congr
    intro message _
    rw [Function.comp_apply, msgIsEmpty_sanitizeMsg, keeps]
    cases hasContent message <;> cases h : message.toolCalls <;> simp [sanitizeMsg, hasReasoning, h]
  have hfilter : filterEmptyMessages ((messages.filter keeps).map sanitizeMsg) =
      (messages.filter keeps).map sanitizeMsg := by
    apply List.filter_eq_self.mpr
    intro message hmem
    obtain ⟨original, horiginal, rfl⟩ := List.mem_map.mp hmem
    exact (keeps_sanitizeMsg original).trans (List.mem_filter.mp horiginal).2
  rw [prepareChatRequest, hprocess, hfilter, removeThinkTags, List.map_map]
  rfl

theorem mem_prepareChatRequest {messages : List Message} {other : Message} :
    other ∈ prepareChatRequest messages ↔
      ∃ message ∈ messages, keeps message = true ∧ cleaned message = other := by
  simp only [prepareChatRequest_eq, List.mem_map, List.mem_filter, and_assoc]

def callIds (message : Message) : List String :=
  match message.toolCalls with
  | some (.arr calls) => calls.filterMap fun call ↦ (call.get "id").bind Json.asStr
  | _ => []

/-- `answer` is a tool message for one of the calls. -/
def answers (call answer : Message) : Bool :=
  decide (answer.role = "tool") && answer.toolCallId.any fun id ↦ decide (id ∈ callIds call)

/-- Where an assistant message with tool calls is kept, all its answers are, in their order. -/
def KeepsPairing (messages : List Message) : Prop :=
  ∀ call ∈ messages, call.role = "assistant" → call.toolCalls.isSome = true →
    cleaned call ∈ prepareChatRequest messages →
      (prepareChatRequest messages).filter (answers call) =
        (messages.filter (answers call)).map cleaned

/-- Every answer to a tool call has content of its own, or else reasoning or tool calls. -/
def AnswersFilled (messages : List Message) : Prop :=
  ∀ call ∈ messages, call.role = "assistant" → call.toolCalls.isSome = true →
    ∀ answer ∈ messages, answers call answer = true →
      hasContent answer = true ∨ answer.toolCalls.isSome = true ∨ hasReasoning answer = true

theorem keeps_eq_true {message : Message} : keeps message = true ↔
    hasContent message = true ∨ message.toolCalls.isSome = true ∨ hasReasoning message = true := by
  rw [keeps, Bool.or_eq_true, Bool.or_eq_true, or_assoc]

theorem answers_cleaned (call message : Message) :
    answers call (cleaned message) = answers call message := by
  rw [cleaned_eq]
  rfl

theorem filter_answers (call : Message) (messages : List Message) :
    (prepareChatRequest messages).filter (answers call) =
      ((messages.filter (answers call)).filter keeps).map cleaned := by
  rw [prepareChatRequest_eq, List.filter_map, List.filter_comm]
  congr 2
  apply List.filter_congr
  intro message _
  exact answers_cleaned call message

theorem keepsPairing_iff (messages : List Message) :
    KeepsPairing messages ↔ AnswersFilled messages := by
  constructor
  · intro hpairing call hcall hrole hcalls answer hanswer hanswers
    have hkept : cleaned call ∈ prepareChatRequest messages :=
      mem_prepareChatRequest.mpr ⟨call, hcall, keeps_eq_true.mpr (.inr (.inl hcalls)), rfl⟩
    have hsame := hpairing call hcall hrole hcalls hkept
    rw [filter_answers] at hsame
    have hlength := congrArg List.length hsame
    rw [List.length_map, List.length_map, List.length_filter_eq_length_iff] at hlength
    exact keeps_eq_true.mp (hlength answer (List.mem_filter.mpr ⟨hanswer, hanswers⟩))
  · intro hfilled call hcall hrole hcalls _
    rw [filter_answers]
    congr 1
    apply List.filter_eq_self.mpr
    intro answer hmem
    obtain ⟨hanswer, hanswers⟩ := List.mem_filter.mp hmem
    exact keeps_eq_true.mpr (hfilled call hcall hrole hcalls answer hanswer hanswers)

def silentTool : List Message :=
  [{ role := "assistant", toolCalls := some (.arr [.obj [("id", .str "call_1")]]) },
    { role := "tool", content := some (.string ""), toolCallId := some "call_1" }]

theorem silent_tool_dropped : ¬KeepsPairing silentTool := by
  intro hpairing
  have hkept : cleaned silentTool[0] ∈ prepareChatRequest silentTool :=
    mem_prepareChatRequest.mpr ⟨silentTool[0], List.mem_cons_self, rfl, rfl⟩
  have hsame := hpairing silentTool[0] List.mem_cons_self rfl rfl hkept
  rw [filter_answers] at hsame
  exact absurd (congrArg List.length hsame) (by decide)

end QueQiao.MessageUtils
