import QueQiao.Handlers.BodyLayers

namespace QueQiao

open Json (Fields)
open RequestBody (Assignments assign)

structure ContentPart where
  type : String
  text : Option String := none
  imageUrl : Option Json := none

inductive MessageContent
  | string (s : String)
  | array (parts : List ContentPart)

structure Message where
  role : String
  content : Option MessageContent := none
  reasoning : Option String := none
  reasoningContent : Option String := none
  toolCalls : Option Json := none
  toolCallId : Option String := none

def ContentPart.assignments (part : ContentPart) : Assignments :=
  [("type", some (.str part.type)), ("text", part.text.map .str), ("image_url", part.imageUrl)]

def ContentPart.toJson (part : ContentPart) : Json := .obj (assign part.assignments [])

def MessageContent.toJson : MessageContent → Json
  | .string s => .str s
  | .array parts => .arr (parts.map ContentPart.toJson)

def Message.assignments (msg : Message) : Assignments :=
  [("role", some (.str msg.role)),
    ("content", some ((msg.content.map MessageContent.toJson).getD .null)),
    ("reasoning", msg.reasoning.map .str), ("reasoning_content", msg.reasoningContent.map .str),
    ("tool_calls", msg.toolCalls), ("tool_call_id", msg.toolCallId.map .str)]

def Message.toJson (msg : Message) : Json := .obj (assign msg.assignments [])

/-- Where a derived `Deserialize` finds the fields of a structure: by their names in an object, and
by their places in an array. -/
def fieldsOf (names : List String) : Json → Option (String → Option Json)
  | .obj fields => some fun name ↦ Fields.get fields name
  | .arr items =>
    if items.length = names.length then some fun name ↦ (names.zip items).lookup name else none
  | _ => none

def ofString : Option Json → Option String
  | some (.str s) => some s
  | _ => none

/-- An `Option<String>`: the outer `none` is the error. -/
def ofOptionalString : Option Json → Option (Option String)
  | none | some .null => some none
  | some (.str s) => some (some s)
  | _ => none

def ofOptionalValue : Option Json → Option Json
  | none | some .null => none
  | some v => some v

def partFields : List String := ["type", "text", "image_url"]

def ContentPart.ofJson (v : Json) : Option ContentPart :=
  (fieldsOf partFields v).bind fun field ↦
    (ofString (field "type")).bind fun type ↦
      (ofOptionalString (field "text")).map fun text ↦
        ⟨type, text, ofOptionalValue (field "image_url")⟩

def MessageContent.ofJson : Option Json → Option (Option MessageContent)
  | none | some .null => some none
  | some (.str s) => some (some (.string s))
  | some (.arr items) => (items.mapM ContentPart.ofJson).map fun parts ↦ some (.array parts)
  | _ => none

def messageFields : List String :=
  ["role", "content", "reasoning", "reasoning_content", "tool_calls", "tool_call_id"]

def Message.ofJson (v : Json) : Option Message :=
  (fieldsOf messageFields v).bind fun field ↦
    (ofString (field "role")).bind fun role ↦
      (MessageContent.ofJson (field "content")).bind fun content ↦
        (ofOptionalString (field "reasoning")).bind fun reasoning ↦
          (ofOptionalString (field "reasoning_content")).bind fun reasoningContent ↦
            (ofOptionalString (field "tool_call_id")).map fun toolCallId ↦
              { role := role
                content := content
                reasoning := reasoning
                reasoningContent := reasoningContent
                toolCalls := ofOptionalValue (field "tool_calls")
                toolCallId := toolCallId }

end QueQiao
