import QueQiao.Handlers.RequestBody

namespace QueQiao.RequestBody

open Json

def assigned (key : String) : Assignments → Option Json
  | [] => none
  | a :: rest => (assigned key rest).or (if a.1 = key then a.2 else none)

theorem get_assign (key : String) (assignments : Assignments) (fields : Fields) :
    (assign assignments fields).get key = (assigned key assignments).or (fields.get key) := by
  induction assignments generalizing fields with
  | nil => rfl
  | cons a rest ih =>
    obtain ⟨k, v⟩ := a
    rw [assign, List.foldl_cons, ← assign, ih, assigned, Option.or_assoc]
    congr 1
    cases v with
    | none => simp
    | some value =>
      by_cases hk : k = key
      · subst hk
        simp [Fields.get_insert_self]
      · simp [hk, Fields.get_insert_ne (Ne.symm hk)]

theorem assigned_eq_none {key : String} {assignments : Assignments}
    (h : key ∉ assignments.map Prod.fst) : assigned key assignments = none := by
  induction assignments with
  | nil => rfl
  | cons a rest ih =>
    rw [List.map_cons, List.mem_cons, not_or] at h
    rw [assigned, ih h.2, if_neg (Ne.symm h.1)]
    rfl

theorem get_streamOptions_ne {key : String} (h : key ≠ "stream_options") (stream : Bool)
    (given : Option Json) (body : Fields) :
    (streamOptions stream given body).get key = body.get key := by
  rw [streamOptions]
  split
  · exact Fields.get_insert_ne h _ body
  · exact Fields.get_remove_ne h body

def addStopWord (merged : List String) (word : String) : List String :=
  if word ∈ merged then merged else merged ++ [word]

theorem mem_foldl_addStopWord (w : String) (requested merged : List String) :
    w ∈ requested.foldl addStopWord merged ↔ w ∈ merged ∨ w ∈ requested := by
  induction requested generalizing merged with
  | nil => simp
  | cons word rest ih =>
    rw [List.foldl_cons, ih, addStopWord]
    split
    · rename_i hword
      constructor
      · intro h
        exact h.imp_right (List.mem_cons_of_mem word)
      · intro h
        obtain h | h := h
        · exact .inl h
        · obtain rfl | h := List.mem_cons.mp h
          · exact .inl hword
          · exact .inr h
    · rw [List.mem_append, List.mem_singleton, List.mem_cons, or_assoc]

theorem count_foldl_addStopWord {w : String} {merged : List String} (h : w ∈ merged)
    (requested : List String) :
    (requested.foldl addStopWord merged).count w = merged.count w := by
  induction requested generalizing merged with
  | nil => rfl
  | cons word rest ih =>
    rw [List.foldl_cons]
    have hword : (addStopWord merged word).count w = merged.count w := by
      rw [addStopWord]
      split
      · rfl
      · rename_i habsent
        have hne : word ≠ w := fun heq ↦ habsent (heq ▸ h)
        rw [List.count_append, List.count_singleton, if_neg (by simpa using hne), Nat.add_zero]
    have hmem : w ∈ addStopWord merged word := by
      rw [addStopWord]
      split
      · exact h
      · exact List.mem_append_left _ h
    rw [ih hmem, hword]

/-- The words of the configuration and of the request, and no further copy of a configured one. -/
structure StopWords (configured requested stop : List String) : Prop where
  ofConfig : ∀ w ∈ configured, w ∈ stop
  ofRequest : ∀ w ∈ requested, w ∈ stop
  copies : ∀ w ∈ configured, stop.count w = configured.count w

theorem mergeStopWords_stopWords {configured requested : Option (List String)}
    (h : configured.isSome ∨ requested.isSome) :
    ∃ stop, mergeStopWords configured requested = some stop ∧
      StopWords (configured.getD []) (requested.getD []) stop := by
  cases configured with
  | some words =>
    cases requested with
    | some asked =>
      refine ⟨asked.foldl addStopWord words, rfl, ?_, ?_, ?_⟩
      · intro w hw
        exact (mem_foldl_addStopWord w asked words).mpr (.inl hw)
      · intro w hw
        exact (mem_foldl_addStopWord w asked words).mpr (.inr hw)
      · intro w hw
        exact count_foldl_addStopWord hw asked
    | none => exact ⟨words, rfl, fun w hw ↦ hw, by simp, fun w _ ↦ rfl⟩
  | none =>
    cases requested with
    | some asked => exact ⟨asked, rfl, by simp, fun w hw ↦ hw, by simp⟩
    | none => simp at h

theorem adjustMaxTokens_le (limit : ℕ) (requested : Option ℕ) :
    ∃ n ≤ limit, adjustMaxTokens (some limit) requested = some n := by
  cases requested with
  | none => exact ⟨limit, le_rfl, rfl⟩
  | some n =>
    refine ⟨_, ?_, rfl⟩
    split <;> omega

def Payload.stopWords : Payload → Option (List String)
  | .chat p => p.stop
  | .completion p => p.stop
  | _ => none

def Payload.extra : Payload → Extra
  | .chat p => p.extra
  | .completion p => p.extra
  | .embedding p => p.extra
  | .rerank p => p.extra
  | .score p => p.extra
  | .classify p => p.extra
  | .responses p => p.extra
  | .anthropicMessages p => p.extra

def ChatCompletionRequest.declared : List String :=
  ["model", "messages", "stream", "temperature", "top_p", "frequency_penalty",
    "presence_penalty", "repetition_penalty", "seed", "max_tokens", "stop", "tools",
    "chat_template_kwargs", "stream_options", "logprobs", "top_logprobs", "prompt_cache_key",
    "prompt_cache_retention"]

def CompletionRequest.declared : List String :=
  ["model", "prompt", "stream", "temperature", "max_tokens", "stop", "stream_options",
    "logprobs", "prompt_logprobs", "echo"]

structure BodyLaw (payload : Payload) (declared : List String) (client : ClientConfig)
    (settings : BodySettings) (stream : Bool) (body : Fields) : Prop where
  model : body.get "model" = some (.str (client.resolveUpstreamModel payload.getModel))
  streaming : body.get "stream" = some (.bool stream)
  maxTokens : ∀ limit, settings.maxTokens = some limit →
    ∃ n ≤ limit, body.get "max_tokens" = some (ofNat n)
  stopWords : settings.stop.isSome ∨ payload.stopWords.isSome →
    ∃ words, body.get "stop" = some (ofStrings words) ∧
      StopWords (settings.stop.getD []) (payload.stopWords.getD []) words
  undeclared : ∀ key value, key ∉ declared → payload.extra.fields.get key = some value →
    body.get key = some value
  kept : ∀ key value, key ≠ "model" →
    (buildRequestBodyInner settings stream payload).get key = some value →
      body.get key = some value
  added : ∀ key, (buildRequestBodyInner settings stream payload).get key = none →
    body.get key = Fields.get (settings.extraBodyCached.getD []) key

theorem getModel_ne_none (settings : BodySettings) (stream : Bool) (payload : Payload) :
    (buildRequestBodyInner settings stream payload).get "model" ≠ none := by
  rw [get_inner]
  exact Option.some_ne_none _

theorem get_rewriteBodyModel_ne {key : String} (h : key ≠ "model") (client : ClientConfig)
    (body : Fields) : (rewriteBodyModel client body).get key = body.get key := by
  rw [rewriteBodyModel]
  split
  · rfl
  · split
    · rfl
    · split
      · exact Fields.get_insert_ne h _ body
      · rfl

theorem get_applyExtraBodyCached_absent {key : String} (extra : Option Fields) {body : Fields}
    (h : body.get key = none) :
    (applyExtraBodyCached extra body).get key = Fields.get (extra.getD []) key := by
  rw [applyExtraBodyCached]
  induction extra.getD [] generalizing body with
  | nil => exact h
  | cons field rest ih =>
    obtain ⟨k, v⟩ := field
    rw [List.foldl_cons]
    by_cases hk : key = k
    · -- the first field of that key decides, and the ones behind it find it present
      subst hk
      have hput := Fields.get_insert_self key v body
      simp only [h, Option.isSome_none, Bool.false_eq_true, ↓reduceIte]
      refine (get_applyExtraBodyCached (some rest) hput).trans ?_
      simp [Fields.get]
    · have hrest : Fields.get ((k, v) :: rest) key = Fields.get rest key := by
        rw [Fields.get, List.lookup_cons, beq_eq_false_iff_ne.mpr hk]
        rfl
      rw [hrest]
      apply ih
      split
      · exact h
      · exact (Fields.get_insert_ne hk v body).trans h

theorem buildRequestBodyGeneric_kept {key : String} {value : Json} (hkey : key ≠ "model")
    {payload : Payload} {settings : BodySettings} {stream : Bool}
    (h : (buildRequestBodyInner settings stream payload).get key = some value)
    (client : ClientConfig) :
    (buildRequestBodyGeneric payload client settings stream).get key = some value :=
  (get_rewriteBodyModel_ne hkey client _).trans
    (get_applyExtraBodyCached settings.extraBodyCached h)

theorem buildRequestBodyGeneric_added {key : String} {payload : Payload}
    {settings : BodySettings} {stream : Bool}
    (h : (buildRequestBodyInner settings stream payload).get key = none)
    (client : ClientConfig) :
    (buildRequestBodyGeneric payload client settings stream).get key =
      Fields.get (settings.extraBodyCached.getD []) key := by
  have hkey : key ≠ "model" := fun heq ↦ getModel_ne_none settings stream payload (heq ▸ h)
  exact (get_rewriteBodyModel_ne hkey client _).trans
    (get_applyExtraBodyCached_absent settings.extraBodyCached h)

section

variable (settings : BodySettings) (stream : Bool)

theorem get_inner_chat (p : ChatCompletionRequest) {key : String} (h : key ≠ "stream_options") :
    (buildRequestBodyInner settings stream (.chat p)).get key =
      (assigned key [("logprobs", p.logprobs.map .bool),
        ("top_logprobs", p.topLogprobs.map ofNat), ("prompt_cache_key", p.promptCacheKey.map .str),
        ("prompt_cache_retention", p.promptCacheRetention.map .str)]).or
      ((assigned key [("model", some (.str p.model)), ("messages", some (.arr p.messages)),
        ("stream", some (.bool stream)), ("temperature", p.temperature.map .num),
        ("top_p", p.topP.map .num), ("frequency_penalty", p.frequencyPenalty.map .num),
        ("presence_penalty", p.presencePenalty.map .num),
        ("repetition_penalty", p.repetitionPenalty.map .num), ("seed", p.seed.map ofNat),
        ("max_tokens", (adjustMaxTokens settings.maxTokens p.maxTokens).map ofNat),
        ("stop", (mergeStopWords settings.stop p.stop).map ofStrings), ("tools", p.tools),
        ("chat_template_kwargs", p.chatTemplateKwargs)]).or (p.extra.fields.get key)) := by
  rw [buildRequestBodyInner, get_assign, get_streamOptions_ne h, get_assign]

theorem get_inner_completion (p : CompletionRequest) {key : String}
    (h : key ≠ "stream_options") :
    (buildRequestBodyInner settings stream (.completion p)).get key =
      (assigned key [("logprobs", p.logprobs.map ofInt),
        ("prompt_logprobs", p.promptLogprobs.map ofInt), ("echo", p.echo.map .bool)]).or
      ((assigned key [("model", some (.str p.model)), ("prompt", some (.str p.prompt)),
        ("stream", some (.bool stream)), ("temperature", p.temperature.map .num),
        ("max_tokens", (adjustMaxTokens settings.maxTokens p.maxTokens).map ofNat),
        ("stop", (mergeStopWords settings.stop p.stop).map ofStrings)]).or
          (p.extra.fields.get key)) := by
  rw [buildRequestBodyInner, get_assign, get_streamOptions_ne h, get_assign]

theorem get_inner_chat_undeclared (p : ChatCompletionRequest) {key : String}
    (h : key ∉ ChatCompletionRequest.declared) :
    (buildRequestBodyInner settings stream (.chat p)).get key = p.extra.fields.get key := by
  simp only [ChatCompletionRequest.declared, List.mem_cons, List.not_mem_nil, or_false,
    not_or] at h
  rw [get_inner_chat settings stream p (by tauto), assigned_eq_none, assigned_eq_none]
  · rfl
  · simp only [List.map_cons, List.map_nil, List.mem_cons, List.not_mem_nil, or_false]
    tauto
  · simp only [List.map_cons, List.map_nil, List.mem_cons, List.not_mem_nil, or_false]
    tauto

theorem get_inner_completion_undeclared (p : CompletionRequest) {key : String}
    (h : key ∉ CompletionRequest.declared) :
    (buildRequestBodyInner settings stream (.completion p)).get key = p.extra.fields.get key := by
  simp only [CompletionRequest.declared, List.mem_cons, List.not_mem_nil, or_false, not_or] at h
  rw [get_inner_completion settings stream p (by tauto), assigned_eq_none, assigned_eq_none]
  · rfl
  · simp only [List.map_cons, List.map_nil, List.mem_cons, List.not_mem_nil, or_false]
    tauto
  · simp only [List.map_cons, List.map_nil, List.mem_cons, List.not_mem_nil, or_false]
    tauto

end

theorem bodyLaw_of_inner {payload : Payload} {declared : List String} {settings : BodySettings}
    {stream : Bool} (requested : Option ℕ) (hmodel : "model" ∈ declared)
    (hstream : (buildRequestBodyInner settings stream payload).get "stream" =
      some (.bool stream))
    (htokens : ∀ n, adjustMaxTokens settings.maxTokens requested = some n →
      (buildRequestBodyInner settings stream payload).get "max_tokens" = some (ofNat n))
    (hstop : ∀ words, mergeStopWords settings.stop payload.stopWords = some words →
      (buildRequestBodyInner settings stream payload).get "stop" = some (ofStrings words))
    (hextra : ∀ key, key ∉ declared →
      (buildRequestBodyInner settings stream payload).get key = payload.extra.fields.get key)
    (client : ClientConfig) :
    BodyLaw payload declared client settings stream
      (buildRequestBodyGeneric payload client settings stream) where
  model := get_buildRequestBodyGeneric payload client settings stream
  streaming := buildRequestBodyGeneric_kept (by decide) hstream client
  maxTokens := by
    intro limit hlimit
    obtain ⟨n, hn, heq⟩ := adjustMaxTokens_le limit requested
    rw [← hlimit] at heq
    exact ⟨n, hn, buildRequestBodyGeneric_kept (by decide) (htokens n heq) client⟩
  stopWords := by
    intro h
    obtain ⟨words, hwords, hlaw⟩ := mergeStopWords_stopWords h
    exact ⟨words, buildRequestBodyGeneric_kept (by decide) (hstop words hwords) client, hlaw⟩
  undeclared := by
    intro key value hkey hvalue
    have hne : key ≠ "model" := fun heq ↦ hkey (heq ▸ hmodel)
    exact buildRequestBodyGeneric_kept hne ((hextra key hkey).trans hvalue) client
  kept := fun key value hkey h ↦ buildRequestBodyGeneric_kept hkey h client
  added := fun key h ↦ buildRequestBodyGeneric_added h client

theorem buildRequestBodyGeneric_layers (client : ClientConfig) (settings : BodySettings)
    (stream : Bool) :
    (∀ p : ChatCompletionRequest, BodyLaw (.chat p) ChatCompletionRequest.declared client settings
      stream (buildRequestBodyGeneric (.chat p) client settings stream)) ∧
    (∀ p : CompletionRequest, BodyLaw (.completion p) CompletionRequest.declared client settings
      stream (buildRequestBodyGeneric (.completion p) client settings stream)) := by
  constructor
  · intro p
    refine bodyLaw_of_inner p.maxTokens (by decide) ?_ ?_ ?_ ?_ client
    · rw [get_inner_chat settings stream p (by decide)]
      simp [assigned]
    · intro n hn
      rw [get_inner_chat settings stream p (by decide), hn]
      simp [assigned]
    · intro words hwords
      rw [Payload.stopWords] at hwords
      rw [get_inner_chat settings stream p (by decide), hwords]
      simp [assigned]
    · intro key hkey
      exact get_inner_chat_undeclared settings stream p hkey
  · intro p
    refine bodyLaw_of_inner p.maxTokens (by decide) ?_ ?_ ?_ ?_ client
    · rw [get_inner_completion settings stream p (by decide)]
      simp [assigned]
    · intro n hn
      rw [get_inner_completion settings stream p (by decide), hn]
      simp [assigned]
    · intro words hwords
      rw [Payload.stopWords] at hwords
      rw [get_inner_completion settings stream p (by decide), hwords]
      simp [assigned]
    · intro key hkey
      exact get_inner_completion_undeclared settings stream p hkey

theorem stop_repeats_configured :
    (buildRequestBodyGeneric (.chat { model := "m", messages := [], extra := ⟨[], rfl⟩ })
        { name := "a", baseUrl := "http://a" } { stop := some ["###", "###"] } false).get "stop" =
      some (ofStrings ["###", "###"]) ∧ ["###", "###"].count "###" = 2 := by
  refine ⟨buildRequestBodyGeneric_kept (by decide) ?_ _, by decide⟩
  rw [get_inner_chat _ _ _ (by decide)]
  simp [assigned, mergeStopWords]

end QueQiao.RequestBody
