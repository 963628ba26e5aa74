import QueQiao.Db.LegacyRows
import QueQiao.Db.Previews
import QueQiao.Handlers.LoggedBodies

namespace QueQiao.Extract

open Json Legacy Previews RequestBody
open Lib.ByteIndex (Fault byteLen)
open StreamLoggers (count textOf)

structure Limits where
  promptMax : ℕ := 8 * 1024
  requestTailMax : ℕ := 32 * 1024
  answerMax : ℕ := 32 * 1024

def partText (part : Json) : Option String :=
  if textOf part "type" = some "text" then textOf part "text"
  else if textOf part "type" = some "image_url" then some "[image]"
  else none

/-- The text of `MessageContent`, of which a message can be without. -/
def contentText : Option Json → String
  | some (.str s) => s
  | some (.arr parts) => "\n".intercalate (parts.filterMap partText)
  | _ => ""

def contentImages : Option Json → ℕ
  | some (.arr parts) => parts.countP isImagePart
  | _ => 0

mutual

def valueText : Json → String
  | .str s => s
  | .arr items => "\n".intercalate ((valueTexts items).filter (· ≠ ""))
  | .obj fields =>
    (((fieldTexts fields).lookup "text").or ((fieldTexts fields).lookup "content")).getD ""
  | _ => ""

def valueTexts : List Json → List String
  | [] => []
  | item :: items => valueText item :: valueTexts items

def fieldTexts : List (String × Json) → List (String × String)
  | [] => []
  | (key, value) :: fields => (key, valueText value) :: fieldTexts fields

end

def arrayLen : Option Json → ℕ
  | some (.arr items) => items.length
  | _ => 0

def role (message : Json) : String := (textOf message "role").getD ""

def systemRoles : List String := ["system", "developer"]

def withTexts (limits : Limits) (prompt tail : String) (r : RequestExtract) :
    Except Fault RequestExtract := do
  let prompt' ← truncateHead prompt.toList limits.promptMax
  let tail' ← truncateHeadTail tail.toList limits.requestTailMax
  pure { r with
    prompt := String.ofList prompt'
    promptBytes := byteLen prompt.toList
    requestTail := String.ofList tail'
    requestTailBytes := byteLen tail.toList }

def chatExtract (limits : Limits) (p : ChatCompletionRequest) : Except Fault RequestExtract :=
  let lastUser := p.messages.reverse.find? fun m ↦ role m = "user"
  withTexts limits (contentText (lastUser.bind (·.get "content")))
    (contentText (p.messages.getLast?.bind (·.get "content")))
    { messageCount := p.messages.length
      systemCount := p.messages.countP fun m ↦ role m ∈ systemRoles
      assistantCount := p.messages.countP fun m ↦ role m = "assistant"
      toolResultCount := p.messages.countP fun m ↦ role m = "tool"
      imageCount := (p.messages.map fun m ↦ contentImages (m.get "content")).sum
      toolCount := arrayLen p.tools }

def isInputImage (part : Json) : Bool :=
  textOf part "type" = some "input_image" || textOf part "type" = some "image_url"

def countInputImages : Option Json → ℕ
  | some (.arr parts) => parts.countP isInputImage
  | _ => 0

def itemText (item : Json) : String := ((item.get "content").map valueText).getD ""

/-- The texts that the loop over the items is left with. -/
structure LastTexts where
  lastUser : String := ""
  lastAny : String := ""

def LastTexts.item (s : LastTexts) (item : Json) : LastTexts :=
  if itemText item = "" then s
  else ⟨if role item = "user" then itemText item else s.lastUser, itemText item⟩

def responsesInputExtract (limits : Limits) (toolCount : ℕ) : Json → Except Fault RequestExtract
  | .str s => withTexts limits s s { messageCount := 1, toolCount := toolCount }
  | .arr items =>
    let last := items.foldl LastTexts.item {}
    withTexts limits last.lastUser last.lastAny
      { messageCount := items.length
        systemCount := items.countP fun m ↦ role m ∈ systemRoles
        assistantCount := items.countP fun m ↦ role m = "assistant"
        toolResultCount := items.countP (fun m ↦ role m = "tool") +
          items.countP fun m ↦ textOf m "type" = some "function_call_output"
        imageCount := (items.map fun m ↦
          if itemText m = "" then 0 else countInputImages (m.get "content")).sum
        toolCount := toolCount }
  | _ => pure { toolCount := toolCount }

def hasToolResult : Option Json → Bool
  | some (.arr parts) => parts.any fun part ↦ textOf part "type" = some "tool_result"
  | _ => false

def systemBlocks : Option Json → ℕ
  | some (.arr blocks) => blocks.length
  | some _ => 1
  | none => 0

def anthropicExtract (limits : Limits) (p : AnthropicMessagesRequest) :
    Except Fault RequestExtract :=
  let r : RequestExtract :=
    { systemCount := systemBlocks (p.extra.fields.get "system")
      toolCount := arrayLen (p.extra.fields.get "tools") }
  match p.extra.fields.get "messages" with
  | some (.arr messages) =>
    let last := messages.foldl LastTexts.item {}
    withTexts limits last.lastUser last.lastAny
      { r with
        messageCount := messages.length
        assistantCount := messages.countP fun m ↦ role m = "assistant"
        toolResultCount := messages.countP fun m ↦ hasToolResult (m.get "content") }
  | _ => pure r

def extractRequest (limits : Limits) : Payload → Except Fault RequestExtract
  | .chat p => chatExtract limits p
  | .completion p => withTexts limits p.prompt p.prompt {}
  | .embedding p => withTexts limits (valueText p.input) (valueText p.input) {}
  | .classify p => withTexts limits (valueText p.input) (valueText p.input) {}
  | .rerank p => withTexts limits p.query p.query {}
  | .score p => withTexts limits (valueText p.text1) (valueText p.text1) {}
  | .responses p =>
    responsesInputExtract limits (arrayLen (p.extra.fields.get "tools")) p.input
  | .anthropicMessages p => anthropicExtract limits p

def pushNonempty (parts : List String) (s : Option String) : List String :=
  parts ++ (s.filter (· ≠ "")).toList

def pushReasoning (parts : List String) (s : Option String) (label : String) : List String :=
  parts ++ ((s.filter (· ≠ "")).map fun s ↦ s!"[{label}]{s}").toList

def finishResponse (limits : Limits) (parts tools : List String) (finishReason : Option String) :
    Except Fault ResponseExtract := do
  let answer := "\n".intercalate parts
  let cut ← truncateHeadTail answer.toList limits.answerMax
  pure {
    answer := String.ofList cut
    answerBytes := byteLen answer.toList
    toolNames := ",".intercalate tools
    finishReason := finishReason }

def messageParts (message : Json) : List String :=
  pushReasoning
    (pushReasoning (pushNonempty [] (textOf message "content")) (textOf message "reasoning")
      "reasoning")
    (textOf message "reasoning_content") "reasoning_content"

def functionName (call : Json) : Option String := (call.get "function").bind (textOf · "name")

def callNames (message : Json) : List String :=
  match message.get "tool_calls" with
  | some (.arr calls) => calls.filterMap functionName
  | _ => []

def choiceParts (choice : Json) : List String :=
  let parts := ((choice.get "message").map messageParts).getD []
  if parts = [] then pushNonempty [] (textOf choice "text") else parts

def blockParts (parts : List String) (block : Json) : List String :=
  match textOf block "type" with
  | some "text" => pushNonempty parts (textOf block "text")
  | some "thinking" => pushReasoning parts (textOf block "thinking") "thinking"
  | _ => parts

def toolUseName (block : Json) : Option String :=
  if textOf block "type" = some "tool_use" then textOf block "name" else none

def outputText (parts : List String) (part : Json) : List String :=
  if textOf part "type" = some "output_text" then pushNonempty parts (textOf part "text")
  else parts

def outputParts (parts : List String) (item : Json) : List String :=
  match textOf item "type", item.get "content" with
  | some "message", some (.arr content) => content.foldl outputText parts
  | _, _ => parts

def functionCallName (item : Json) : Option String :=
  if textOf item "type" = some "function_call" then textOf item "name" else none

def extractResponse (limits : Limits) (response : Json) : Except Fault ResponseExtract :=
  match response.get "choices", response.get "content", response.get "output" with
  | some (.arr (choice :: _)), _, _ =>
    finishResponse limits (choiceParts choice) (((choice.get "message").map callNames).getD [])
      (textOf choice "finish_reason")
  | _, some (.arr content), _ =>
    finishResponse limits (content.foldl blockParts []) (content.filterMap toolUseName)
      (textOf response "stop_reason")
  | _, _, some (.arr output) =>
    finishResponse limits (output.foldl outputParts []) (output.filterMap functionCallName) none
  | _, _, _ => pure {}

/-- `try_into().unwrap_or_default()` into 32 bits with a sign. -/
def toI32 (n : ℕ) : ℕ := if n < 2 ^ 31 then n else 0

structure Tokens where
  prompt : ℕ := 0
  completion : ℕ := 0
  total : ℕ := 0
  deriving DecidableEq

/-- The counts of a usage as `log_non_streaming_request` reads them. -/
def usageTokens (usage : Option Json) : Tokens where
  prompt :=
    toI32 ((usage.bind fun u ↦ (count u "prompt_tokens").or (count u "input_tokens")).getD 0)
  completion :=
    toI32 ((usage.bind fun u ↦ (count u "completion_tokens").or (count u "output_tokens")).getD 0)
  total := toI32 ((usage.bind (count · "total_tokens")).getD 0)

end QueQiao.Extract
