import QueQiao.Handlers.UsageReports

namespace QueQiao.StreamLoggers

open StreamHandler Json

/-- `value[key] = ..`: null becomes an object, and a value that is no object panics. -/
def indexMut (key : String) (f : Json → Option Json) : Json → Option Json
  | .null => (f .null).map fun v ↦ .obj [(key, v)]
  | .obj fields =>
    (f ((Fields.get fields key).getD .null)).map fun v ↦ .obj (Fields.insert key v fields)
  | _ => none

/-- `value[0] = ..`: what is no array, or has no items, panics. -/
def indexMutFirst (f : Json → Option Json) : Json → Option Json
  | .arr (item :: items) => (f item).map fun v ↦ .arr (v :: items)
  | _ => none

def isArrayWithItems : Option Json → Bool
  | some (.arr (_ :: _)) => true
  | _ => false

theorem isSome_indexMut_const (key : String) (v chunk : Json) :
    (indexMut key (fun _ ↦ some v) chunk).isSome = takesFields chunk := by
  cases chunk <;> rfl

structure ToolCallAccumulator where
  index : ℕ
  id : Option String := none
  type : Option String := none
  name : Option String := none
  arguments : String := ""

structure StreamAccumulator where
  content : String := ""
  reasoning : String := ""
  reasoningContent : String := ""
  role : String := "assistant"
  toolCalls : List ToolCallAccumulator := []

def textOf (v : Json) (key : String) : Option String := (v.get key).bind Json.asStr

def ToolCallAccumulator.update (tc : Json) (acc : ToolCallAccumulator) : ToolCallAccumulator :=
  let func := tc.get "function"
  { acc with
    id := (textOf tc "id").or acc.id
    type := (textOf tc "type").or acc.type
    name := (func.bind (textOf · "name")).or acc.name
    arguments := acc.arguments ++ (func.bind (textOf · "arguments")).getD "" }

def StreamAccumulator.updateToolCall (acc : StreamAccumulator) (tc : Json) : StreamAccumulator :=
  match count tc "index" with
  | none => acc
  | some index =>
    let call := (acc.toolCalls.find? (·.index = index)).getD { index := index }
    { acc with toolCalls := call.update tc :: acc.toolCalls.filter (·.index ≠ index) }

def StreamAccumulator.update (acc : StreamAccumulator) (delta : Json) : StreamAccumulator :=
  let acc := { acc with
    role := (textOf delta "role").getD acc.role
    content := acc.content ++ (textOf delta "content").getD ""
    reasoning := acc.reasoning ++ (textOf delta "reasoning").getD ""
    reasoningContent := acc.reasoningContent ++ (textOf delta "reasoning_content").getD "" }
  match delta.get "tool_calls" with
  | some (.arr tcs) => tcs.foldl StreamAccumulator.updateToolCall acc
  | _ => acc

def orNull (s : Option String) : Json := (s.map .str).getD .null

def ToolCallAccumulator.toJson (tc : ToolCallAccumulator) : Json :=
  .obj [("function", .obj [("arguments", .str tc.arguments), ("name", orNull tc.name)]),
    ("id", orNull tc.id), ("type", .str (tc.type.getD "function"))]

def StreamAccumulator.toMessageJson (acc : StreamAccumulator) : Json :=
  let text key s (fields : Fields) := if s = "" then fields else fields.insert key (.str s)
  let msg := text "reasoning_content" acc.reasoningContent
    (text "reasoning" acc.reasoning (text "content" acc.content [("role", .str acc.role)]))
  let sorted := acc.toolCalls.mergeSort fun a b ↦ a.index ≤ b.index
  .obj (if acc.toolCalls.isEmpty then msg
    else msg.insert "tool_calls" (.arr (sorted.map ToolCallAccumulator.toJson)))

/-- What `stream_logger_task` collects for the response of the record. -/
structure ChatContent where
  accumulator : StreamAccumulator := {}
  capturedFinishReason : Option String := none

variable (serdeFromStr : String → Option Json) (isChat : Bool)

def ChatContent.receiveChoice (s : ChatContent) (choice : Json) : ChatContent where
  capturedFinishReason := (textOf choice "finish_reason").or s.capturedFinishReason
  accumulator :=
    if isChat then ((choice.get "delta").map s.accumulator.update).getD s.accumulator
    else { s.accumulator with
      content := s.accumulator.content ++ (textOf choice "text").getD "" }

def ChatContent.receive (s : ChatContent) (chunkStr : String) : ChatContent :=
  if chunkStr = streamUpstreamErrorSentinel then s
  else
    match serdeFromStr chunkStr with
    | none => s
    | some chunk =>
      match chunk.get "choices" with
      | some (.arr (choice :: _)) => s.receiveChoice isChat choice
      | _ => s

def withChoices (finalChunk : Json) : Option Json :=
  if isArrayWithItems (finalChunk.get "choices") then some finalChunk
  else indexMut "choices" (fun _ ↦ some (.arr [.obj [("index", .num 0)]])) finalChunk

def onFirstChoice (f : Json → Option Json) (finalChunk : Json) : Option Json :=
  indexMut "choices" (indexMutFirst f) finalChunk

def removeDelta : Json → Json
  | .obj fields => .obj (Fields.remove "delta" fields)
  | v => v

def insertFinishReason (reason : String) : Json → Json
  | .obj fields => .obj (Fields.insert "finish_reason" (.str reason) fields)
  | v => v

def injectContent (content : ChatContent) (finalChunk : Json) : Option Json :=
  if isChat then
    onFirstChoice (fun choice ↦
      (indexMut "message" (fun _ ↦ some content.accumulator.toMessageJson) choice).map removeDelta)
      finalChunk
  else
    onFirstChoice (indexMut "text" fun _ ↦ some (.str content.accumulator.content)) finalChunk

def injectUsage (capturedUsage : Option Json) (finalChunk : Json) : Option Json :=
  match capturedUsage with
  | some usage => indexMut "usage" (fun _ ↦ some usage) finalChunk
  | none => some finalChunk

def injectFinishReason (capturedFinishReason : Option String) (finalChunk : Json) : Option Json :=
  match capturedFinishReason with
  | some reason => onFirstChoice (fun choice ↦ some (insertFinishReason reason choice)) finalChunk
  | none => some finalChunk

/-- The response of the audit record; a panic on the way is `none`. -/
def loggedResponse (s : ChatLog) (content : ChatContent) : Option Json := do
  let finalChunk ← withChoices s.finalChunk
  let finalChunk ← injectContent isChat content finalChunk
  let finalChunk ← injectUsage s.capturedUsage finalChunk
  injectFinishReason content.capturedFinishReason finalChunk

inductive Indexable : Json → Prop
  | mk {fields : Fields} {choice : Json} {items : List Json}
      (h : Fields.get fields "choices" = some (.arr (choice :: items))) : Indexable (.obj fields)

theorem isSome_onFirstChoice {fields : Fields} {choice : Json} {items : List Json}
    (h : Fields.get fields "choices" = some (.arr (choice :: items))) (f : Json → Option Json) :
    (onFirstChoice f (.obj fields)).isSome = (f choice).isSome := by
  simp only [onFirstChoice, indexMut, h, Option.getD_some, indexMutFirst, Option.isSome_map]

theorem indexable_onFirstChoice {chunk chunk' : Json} {f : Json → Option Json}
    (h : onFirstChoice f chunk = some chunk') (hchunk : Indexable chunk) : Indexable chunk' := by
  obtain ⟨hget⟩ := hchunk
  simp only [onFirstChoice, indexMut, hget, Option.getD_some, indexMutFirst, Option.map_map,
    Option.map_eq_some_iff, Function.comp_apply] at h
  obtain ⟨v, -, rfl⟩ := h
  exact .mk (Fields.get_insert_self _ _ _)

theorem indexable_injectContent {content : ChatContent} {chunk chunk' : Json}
    (h : injectContent isChat content chunk = some chunk') (hchunk : Indexable chunk) :
    Indexable chunk' := by
  rw [injectContent] at h
  split at h
  · exact indexable_onFirstChoice h hchunk
  · exact indexable_onFirstChoice h hchunk

theorem isSome_injectUsage {chunk : Json} (usage : Option Json) (hchunk : Indexable chunk) :
    ∃ chunk', injectUsage usage chunk = some chunk' ∧ Indexable chunk' := by
  obtain ⟨hget⟩ := hchunk
  cases usage with
  | none => exact ⟨_, rfl, .mk hget⟩
  | some usage =>
    have hinsert : Fields.get (Fields.insert "usage" usage _) "choices" = _ :=
      (Fields.get_insert_ne (by decide) usage _).trans hget
    exact ⟨_, rfl, .mk hinsert⟩

theorem isSome_injectFinishReason {chunk : Json} (reason : Option String)
    (hchunk : Indexable chunk) : (injectFinishReason reason chunk).isSome = true := by
  obtain ⟨hget⟩ := hchunk
  cases reason with
  | none => rfl
  | some reason => exact isSome_onFirstChoice hget _

theorem isSome_injectContent {fields : Fields} {choice : Json} {items : List Json}
    (h : Fields.get fields "choices" = some (.arr (choice :: items))) (content : ChatContent) :
    (injectContent isChat content (.obj fields)).isSome = takesFields choice := by
  rw [injectContent]
  split
  · rw [isSome_onFirstChoice h, Option.isSome_map, isSome_indexMut_const]
  · rw [isSome_onFirstChoice h, isSome_indexMut_const]

theorem isSome_afterChoices {chunk : Json} (hchunk : Indexable chunk) (usage : Option Json)
    (content : ChatContent) :
    ((injectContent isChat content chunk).bind fun chunk ↦
      (injectUsage usage chunk).bind (injectFinishReason content.capturedFinishReason)).isSome =
        (injectContent isChat content chunk).isSome := by
  cases hinject : injectContent isChat content chunk with
  | none => rfl
  | some chunk' =>
    obtain ⟨chunk'', husage, hindexable⟩ :=
      isSome_injectUsage usage (indexable_injectContent isChat hinject hchunk)
    rw [Option.bind_some, husage, Option.bind_some, Option.isSome_some]
    exact isSome_injectFinishReason content.capturedFinishReason hindexable

theorem isArrayWithItems_iff {chunk : Json} :
    isArrayWithItems (chunk.get "choices") = true ↔
      ∃ fields choice items, chunk = .obj fields ∧
        Fields.get fields "choices" = some (.arr (choice :: items)) := by
  constructor
  · intro h
    cases chunk with
    | obj fields =>
      have hget : Json.get (.obj fields) "choices" = Fields.get fields "choices" := rfl
      rw [hget] at h
      unfold isArrayWithItems at h
      split at h
      · rename_i choice items hchoices
        exact ⟨fields, choice, items, rfl, hchoices⟩
      · cases h
    | null | bool | num | str | arr => cases h
  · rintro ⟨fields, choice, items, rfl, h⟩
    have hget : Json.get (.obj fields) "choices" = some (.arr (choice :: items)) := h
    rw [hget]
    rfl

theorem takesContent_of_choices {fields : Fields} {choice : Json} {items : List Json}
    (h : Fields.get fields "choices" = some (.arr (choice :: items))) :
    takesContent (.obj fields) = takesFields choice := by
  have hget : Json.get (.obj fields) "choices" = some (.arr (choice :: items)) := h
  rw [takesContent, hget]

theorem takesContent_of_no_choices {chunk : Json}
    (h : isArrayWithItems (chunk.get "choices") = false) :
    takesContent chunk = takesFields chunk := by
  unfold takesContent
  split
  · rename_i hchoices
    rw [hchoices] at h
    cases h
  · rfl

theorem isSome_loggedResponse (s : ChatLog) (content : ChatContent) :
    (loggedResponse isChat s content).isSome = takesContent s.finalChunk := by
  have hbind : loggedResponse isChat s content =
      (withChoices s.finalChunk).bind fun chunk ↦ (injectContent isChat content chunk).bind
        fun chunk ↦ (injectUsage s.capturedUsage chunk).bind
          (injectFinishReason content.capturedFinishReason) := rfl
  rw [hbind]
  by_cases hchoices : isArrayWithItems (s.finalChunk.get "choices") = true
  · obtain ⟨fields, choice, items, hchunk, hget⟩ := isArrayWithItems_iff.mp hchoices
    rw [withChoices, if_pos hchoices, Option.bind_some, hchunk,
      isSome_afterChoices isChat (.mk hget), isSome_injectContent isChat hget,
      takesContent_of_choices hget]
  · rw [takesContent_of_no_choices (Bool.eq_false_iff.mpr hchoices), withChoices,
      if_neg hchoices]
    have hinserted : ∀ fields : Fields, Fields.get fields "choices" =
        some (.arr [.obj [("index", .num 0)]]) →
        ((injectContent isChat content (.obj fields)).bind fun chunk ↦
          (injectUsage s.capturedUsage chunk).bind
            (injectFinishReason content.capturedFinishReason)).isSome = true := by
      intro fields hget
      rw [isSome_afterChoices isChat (.mk hget), isSome_injectContent isChat hget]
      rfl
    cases s.finalChunk with
    | null => exact hinserted _ rfl
    | obj fields => exact hinserted _ (Fields.get_insert_self _ _ _)
    | bool | num | str | arr => rfl

end QueQiao.StreamLoggers
