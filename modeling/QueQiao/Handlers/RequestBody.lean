import QueQiao.Config.Types
import QueQiao.Models.Json

namespace QueQiao.RequestBody

open Json

/-- Fields of a JSON object; those without a value are left out. -/
abbrev Assignments := List (String × Option Json)

/-- `extra`: the fields of a request that its type does not declare. -/
structure Extra where
  fields : Fields
  model : fields.get "model" = none

structure ChatCompletionRequest where
  model : String
  messages : List Json
  stream : Option Bool := none
  temperature : Option ℚ := none
  topP : Option ℚ := none
  frequencyPenalty : Option ℚ := none
  presencePenalty : Option ℚ := none
  repetitionPenalty : Option ℚ := none
  seed : Option ℕ := none
  maxTokens : Option ℕ := none
  stop : Option (List String) := none
  tools : Option Json := none
  chatTemplateKwargs : Option Json := none
  streamOptions : Option Json := none
  logprobs : Option Bool := none
  topLogprobs : Option ℕ := none
  promptCacheKey : Option String := none
  promptCacheRetention : Option String := none
  extra : Extra

structure CompletionRequest where
  model : String
  prompt : String
  stream : Option Bool := none
  temperature : Option ℚ := none
  maxTokens : Option ℕ := none
  stop : Option (List String) := none
  streamOptions : Option Json := none
  logprobs : Option ℤ := none
  promptLogprobs : Option ℤ := none
  echo : Option Bool := none
  extra : Extra

structure EmbeddingRequest where
  model : String
  input : Json
  encodingFormat : Option String := none
  dimensions : Option ℕ := none
  user : Option String := none
  extra : Extra

structure RerankRequest where
  model : String
  query : String
  documents : List String
  topN : Option ℕ := none
  extra : Extra

structure ScoreRequest where
  model : String
  text1 : Json
  text2 : Json
  extra : Extra

structure ClassifyRequest where
  model : String
  input : Json
  extra : Extra

structure ResponsesRequest where
  model : String
  input : Json
  stream : Option Bool := none
  extra : Extra

structure AnthropicMessagesRequest where
  model : String
  stream : Option Bool := none
  extra : Extra

inductive Payload
  | chat (p : ChatCompletionRequest)
  | completion (p : CompletionRequest)
  | embedding (p : EmbeddingRequest)
  | rerank (p : RerankRequest)
  | score (p : ScoreRequest)
  | classify (p : ClassifyRequest)
  | responses (p : ResponsesRequest)
  | anthropicMessages (p : AnthropicMessagesRequest)

def Payload.getModel : Payload → String
  | .chat p => p.model
  | .completion p => p.model
  | .embedding p => p.model
  | .rerank p => p.model
  | .score p => p.model
  | .classify p => p.model
  | .responses p => p.model
  | .anthropicMessages p => p.model

def Payload.setModel (modelName : String) : Payload → Payload
  | .chat p => .chat { p with model := modelName }
  | .completion p => .completion { p with model := modelName }
  | .embedding p => .embedding { p with model := modelName }
  | .rerank p => .rerank { p with model := modelName }
  | .score p => .score { p with model := modelName }
  | .classify p => .classify { p with model := modelName }
  | .responses p => .responses { p with model := modelName }
  | .anthropicMessages p => .anthropicMessages { p with model := modelName }

def Payload.isStreaming : Payload → Bool
  | .chat p => p.stream.getD false
  | .completion p => p.stream.getD false
  | .responses p => p.stream.getD false
  | .anthropicMessages p => p.stream.getD false
  | .embedding _ | .rerank _ | .score _ | .classify _ => false

@[simp] theorem Payload.getModel_setModel (modelName : String) (payload : Payload) :
    (payload.setModel modelName).getModel = modelName := by
  cases payload <;> rfl

structure BodySettings where
  stop : Option (List String) := none
  maxTokens : Option ℕ := none
  extraBodyCached : Option Fields := none

def mergeStopWords : Option (List String) → Option (List String) → Option (List String)
  | some clientStopWords, some requestStopWords =>
    some (requestStopWords.foldl
      (fun merged word ↦ if word ∈ merged then merged else merged ++ [word]) clientStopWords)
  | some clientStopWords, none => some clientStopWords
  | none, requestStopWords => requestStopWords

def adjustMaxTokens : Option ℕ → Option ℕ → Option ℕ
  | some clientLimit, some requested =>
    some (if clientLimit < requested then clientLimit else requested)
  | some clientLimit, none => some clientLimit
  | none, requested => requested

def ofNat (n : ℕ) : Json := .num n

def ofInt (n : ℤ) : Json := .num n

def ofStrings (items : List String) : Json := .arr (items.map .str)

def assign (assignments : Assignments) (fields : Fields) : Fields :=
  assignments.foldl
    (fun fields assignment ↦ match assignment.2 with
      | some value => fields.insert assignment.1 value
      | none => fields) fields

/-- `to_value` of a request: its own fields, and then the flattened ones. -/
def toValue (own : Assignments) (extra : Extra) : Fields :=
  assign (extra.fields.map fun field ↦ (field.1, some field.2)) (assign own [])

def streamOptions (stream : Bool) (given : Option Json) (body : Fields) : Fields :=
  if stream then
    body.insert "stream_options" (given.getD (.obj [("include_usage", .bool true)]))
  else body.remove "stream_options"

def buildRequestBodyInner (settings : BodySettings) (stream : Bool) : Payload → Fields
  | .chat p =>
    let body := assign [("model", some (.str p.model)), ("messages", some (.arr p.messages)),
      ("stream", some (.bool stream)), ("temperature", p.temperature.map .num),
      ("top_p", p.topP.map .num), ("frequency_penalty", p.frequencyPenalty.map .num),
      ("presence_penalty", p.presencePenalty.map .num),
      ("repetition_penalty", p.repetitionPenalty.map .num), ("seed", p.seed.map ofNat),
      ("max_tokens", (adjustMaxTokens settings.maxTokens p.maxTokens).map ofNat),
      ("stop", (mergeStopWords settings.stop p.stop).map ofStrings), ("tools", p.tools),
      ("chat_template_kwargs", p.chatTemplateKwargs)] p.extra.fields
    assign [("logprobs", p.logprobs.map .bool), ("top_logprobs", p.topLogprobs.map ofNat),
      ("prompt_cache_key", p.promptCacheKey.map .str),
      ("prompt_cache_retention", p.promptCacheRetention.map .str)]
      (streamOptions stream p.streamOptions body)
  | .completion p =>
    let body := assign [("model", some (.str p.model)), ("prompt", some (.str p.prompt)),
      ("stream", some (.bool stream)), ("temperature", p.temperature.map .num),
      ("max_tokens", (adjustMaxTokens settings.maxTokens p.maxTokens).map ofNat),
      ("stop", (mergeStopWords settings.stop p.stop).map ofStrings)] p.extra.fields
    assign [("logprobs", p.logprobs.map ofInt), ("prompt_logprobs", p.promptLogprobs.map ofInt),
      ("echo", p.echo.map .bool)] (streamOptions stream p.streamOptions body)
  | .embedding p => toValue [("model", some (.str p.model)), ("input", some p.input),
      ("encoding_format", p.encodingFormat.map .str), ("dimensions", p.dimensions.map ofNat),
      ("user", p.user.map .str)] p.extra
  | .rerank p => toValue [("model", some (.str p.model)), ("query", some (.str p.query)),
      ("documents", some (ofStrings p.documents)), ("top_n", p.topN.map ofNat)] p.extra
  | .score p => toValue [("model", some (.str p.model)), ("text_1", some p.text1),
      ("text_2", some p.text2)] p.extra
  | .classify p => toValue [("model", some (.str p.model)), ("input", some p.input)] p.extra
  | .responses p =>
    (toValue [("model", some (.str p.model)), ("input", some p.input),
      ("stream", p.stream.map .bool)] p.extra).insert "stream" (.bool stream)
  | .anthropicMessages p =>
    (toValue [("model", some (.str p.model)),
      ("stream", some ((p.stream.map .bool).getD .null))] p.extra).insert "stream" (.bool stream)

def applyExtraBodyCached (extra : Option Fields) (body : Fields) : Fields :=
  (extra.getD []).foldl
    (fun target field ↦
      if (target.get field.1).isSome then target else target.insert field.1 field.2) body

def rewriteBodyModel (client : ClientConfig) (body : Fields) : Fields :=
  match (body.get "model").bind Json.asStr with
  | none => body
  | some inbound =>
    match client.modelRewrite.bind fun rewrite ↦ rewrite.lookup inbound with
    | none => body
    | some upstream => if upstream ≠ inbound then body.insert "model" (.str upstream) else body

def buildRequestBodyGeneric (payload : Payload) (client : ClientConfig) (settings : BodySettings)
    (stream : Bool) : Fields :=
  rewriteBodyModel client
    (applyExtraBodyCached settings.extraBodyCached (buildRequestBodyInner settings stream payload))

theorem get_assign_ne {key : String} {assignments : Assignments}
    (h : ∀ a ∈ assignments, a.1 ≠ key) (fields : Fields) :
    (assign assignments fields).get key = fields.get key := by
  induction assignments generalizing fields with
  | nil => rfl
  | cons a rest ih =>
    have hrest := ih fun b hb ↦ h b (List.mem_cons_of_mem a hb)
    rw [assign, List.foldl_cons]
    refine (hrest _).trans ?_
    cases a.2 with
    | none => rfl
    | some value => exact Fields.get_insert_ne (h a List.mem_cons_self).symm value fields

theorem get_assign_head {key : String} {value : Json} {rest : Assignments}
    (h : ∀ a ∈ rest, a.1 ≠ key) (fields : Fields) :
    (assign ((key, some value) :: rest) fields).get key = some value :=
  (get_assign_ne h _).trans (Fields.get_insert_self key value fields)

theorem get_streamOptions (stream : Bool) (given : Option Json) (body : Fields) :
    (streamOptions stream given body).get "model" = body.get "model" := by
  rw [streamOptions]
  split
  · exact Fields.get_insert_ne (by decide) _ body
  · exact Fields.get_remove_ne (by decide) body

theorem get_toValue {model : String} {rest : Assignments} {extra : Extra}
    (h : ∀ a ∈ rest, a.1 ≠ "model") :
    (toValue (("model", some (.str model)) :: rest) extra).get "model" = some (.str model) := by
  refine (get_assign_ne ?_ _).trans (get_assign_head h [])
  intro a ha heq
  obtain ⟨field, hfield, rfl⟩ := List.mem_map.mp ha
  have hnone := List.lookup_eq_none_iff.mp extra.model field hfield
  rw [show field.1 = "model" from heq] at hnone
  revert hnone
  decide

theorem get_inner (settings : BodySettings) (stream : Bool) (payload : Payload) :
    (buildRequestBodyInner settings stream payload).get "model" = some (.str payload.getModel) := by
  cases payload with
  | chat p =>
    rw [buildRequestBodyInner]
    refine (get_assign_ne ?_ _).trans ((get_streamOptions stream p.streamOptions _).trans
      (get_assign_head ?_ p.extra.fields))
    · simp
    · simp
  | completion p =>
    rw [buildRequestBodyInner]
    refine (get_assign_ne ?_ _).trans ((get_streamOptions stream p.streamOptions _).trans
      (get_assign_head ?_ p.extra.fields))
    · simp
    · simp
  | embedding p | rerank p | score p | classify p => exact get_toValue (by simp)
  | responses p | anthropicMessages p =>
    exact (Fields.get_insert_ne (by decide) _ _).trans (get_toValue (by simp))

theorem get_applyExtraBodyCached {key : String} {value : Json} (extra : Option Fields)
    {body : Fields} (h : body.get key = some value) :
    (applyExtraBodyCached extra body).get key = some value := by
  rw [applyExtraBodyCached]
  induction extra.getD [] generalizing body with
  | nil => exact h
  | cons field rest ih =>
    rw [List.foldl_cons]
    apply ih
    split
    · exact h
    · rename_i habsent
      refine (Fields.get_insert_ne ?_ field.2 body).trans h
      intro heq
      rw [← heq, h] at habsent
      exact habsent rfl

theorem get_rewriteBodyModel {model : String} {body : Fields} (client : ClientConfig)
    (h : body.get "model" = some (.str model)) :
    (rewriteBodyModel client body).get "model" =
      some (.str (client.resolveUpstreamModel model)) := by
  rw [rewriteBodyModel, h, ClientConfig.resolveUpstreamModel]
  dsimp only [Option.bind_some, Json.asStr]
  cases client.modelRewrite.bind fun rewrite ↦ rewrite.lookup model with
  | none => exact h
  | some upstream =>
    dsimp only [Option.getD_some]
    split
    · exact Fields.get_insert_self "model" (.str upstream) body
    · rename_i heq
      rw [not_not.mp heq]
      exact h

theorem get_buildRequestBodyGeneric (payload : Payload) (client : ClientConfig)
    (settings : BodySettings) (stream : Bool) :
    (buildRequestBodyGeneric payload client settings stream).get "model" =
      some (.str (client.resolveUpstreamModel payload.getModel)) :=
  get_rewriteBodyModel client
    (get_applyExtraBodyCached settings.extraBodyCached (get_inner settings stream payload))

end QueQiao.RequestBody
