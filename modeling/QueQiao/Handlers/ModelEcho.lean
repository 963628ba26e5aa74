import QueQiao.Handlers.RequestEndings
import QueQiao.Handlers.StreamTermination

namespace QueQiao.ModelEcho

open CommonHandler StreamHandler RequestRun ThinkingTransformer

/-- The model at the top of a value, or in the object under a key. -/
def modelAt : Option String → Json → Option Json
  | none, v => v.get "model"
  | some key, v => (v.get key).bind (·.get "model")

/-- What becomes of the model field of a value that the upstream sends. -/
inductive Fate
  | kept
  | renamed
  | dropped
  deriving DecidableEq, Repr

def Fate.model (name : String) (m : Json) : Fate → Option Json
  | kept => some m
  | renamed => some (.str name)
  | dropped => none

def Fate.Inbound (inbound name : String) (m : Json) : Fate → Prop
  | kept => m = .str inbound
  | renamed => name = inbound
  | dropped => True

theorem Fate.inbound_iff (inbound name : String) (m : Json) (fate : Fate) :
    fate.Inbound inbound name m ↔ ∀ m', fate.model name m = some m' → m' = .str inbound := by
  cases fate <;> simp [Fate.Inbound, Fate.model]

/-- A value that was sent, with what became of its model fields, and the value that was returned. -/
def Passes (places : List (Option String)) (name : String) (sent : Json × Fate)
    (pair : Json × Json) : Prop :=
  pair.1 = sent.1 ∧ ∀ place ∈ places, ∀ m, modelAt place sent.1 = some m →
    modelAt place pair.2 = sent.2.model name m

/-- The model fields that the upstream sent have the name in what is returned. -/
def Echoed (places : List (Option String)) (inbound : String) (pair : Json × Json) : Prop :=
  ∀ place ∈ places, (modelAt place pair.1).isSome = true →
    ∀ m, modelAt place pair.2 = some m → m = .str inbound

def SentInbound (places : List (Option String)) (inbound name : String) (sent : Json × Fate) :
    Prop :=
  ∀ place ∈ places, ∀ m, modelAt place sent.1 = some m → sent.2.Inbound inbound name m

variable {places : List (Option String)} {name : String}

theorem Passes.echoed_iff {sent : Json × Fate} {pair : Json × Json}
    (h : Passes places name sent pair) (inbound : String) :
    Echoed places inbound pair ↔ SentInbound places inbound name sent := by
  refine forall_congr' fun place ↦ forall_congr' fun hplace ↦ ?_
  rw [h.1]
  constructor
  · intro hechoed m hm
    rw [Fate.inbound_iff, ← h.2 place hplace m hm]
    exact hechoed (by rw [hm]; rfl)
  · intro hsent hsome
    obtain ⟨m, hm⟩ := Option.isSome_iff_exists.mp hsome
    have hinbound := hsent m hm
    rwa [Fate.inbound_iff, ← h.2 place hplace m hm] at hinbound

theorem forall_echoed_iff {sent : List (Json × Fate)} {pairs : List (Json × Json)}
    (h : List.Forall₂ (Passes places name) sent pairs) (inbound : String) :
    (∀ pair ∈ pairs, Echoed places inbound pair) ↔
      ∀ s ∈ sent, SentInbound places inbound name s := by
  induction h with
  | nil => simp
  | cons hhead _ ih => rw [List.forall_mem_cons, List.forall_mem_cons, ih, hhead.echoed_iff]

theorem passes_kept (places : List (Option String)) (name : String) (v : Json) :
    Passes places name (v, .kept) (v, v) := ⟨rfl, fun _ _ _ h ↦ h⟩

theorem get_pointerModify_ne {key : String} {token : Json.Token} (h : key ≠ token.1)
    (f : Json → Json) (tokens : List Json.Token) (v : Json) :
    (v.pointerModify f (token :: tokens)).get key = v.get key := by
  cases v with
  | obj fields =>
    have hget := Json.Fields.get_map_modify token.1 (Json.pointerModify f tokens) fields key
    rw [if_neg h] at hget
    exact hget
  | arr items =>
    obtain ⟨token, index⟩ := token
    cases index <;> rfl
  | null | bool | num | str => rfl

/-- `insert` in the object, if the value is one. -/
def insertModel (inboundModel : String) : Json → Json
  | .obj fields => .obj (Json.Fields.insert "model" (.str inboundModel) fields)
  | v => v

/-- A change that gives a value another model, and leaves its other fields. -/
structure Renames (name : String) (f : Json → Json) : Prop where
  model : ∀ v, (v.get "model").isSome = true → (f v).get "model" = some (.str name)
  other : ∀ v key, key ≠ "model" → (f v).get key = v.get key

theorem renames_insertModel (name : String) : Renames name (insertModel name) where
  model v h := by
    cases v with
    | obj fields => exact Json.Fields.get_insert_self ..
    | null | bool | num | str | arr => cases h
  other v key h := by
    cases v with
    | obj fields => exact Json.Fields.get_insert_ne h ..
    | null | bool | num | str | arr => rfl

theorem renames_rewriteChunkModel (name : String) : Renames name (rewriteChunkModel name) where
  model v h := by
    cases v with
    | obj fields =>
      have hsome : (Json.Fields.get fields "model").isSome = true := h
      rw [rewriteChunkModel, if_pos hsome]
      exact Json.Fields.get_insert_self ..
    | null | bool | num | str | arr => cases h
  other v key h := by
    cases v with
    | obj fields =>
      rw [rewriteChunkModel]
      split
      · exact Json.Fields.get_insert_ne h ..
      · rfl
    | null | bool | num | str | arr => rfl

theorem get_modify_self (key : String) (f : Json → Json) (v : Json) :
    (v.modify key f).get key = (v.get key).map f := by
  cases v with
  | obj fields =>
    have hget := Json.Fields.get_map_modify key f fields key
    rw [if_pos rfl] at hget
    exact hget
  | null | bool | num | str | arr => rfl

def rewriteWithin (f : Json → Json) (key : String) (v : Json) : Json := (f v).modify key f

theorem Renames.passes_within {f : Json → Json} (h : Renames name f) {key : String}
    (hkey : key ≠ "model") (v : Json) :
    Passes [none, some key] name (v, .renamed) (v, rewriteWithin f key v) := by
  refine ⟨rfl, ?_⟩
  intro place hplace m hm
  simp only [List.mem_cons, List.not_mem_nil, or_false] at hplace
  rcases hplace with rfl | rfl
  · have hmodel : v.get "model" = some m := hm
    rw [modelAt, rewriteWithin, get_modify_ne hkey.symm]
    exact h.model v (by rw [hmodel]; rfl)
  · obtain ⟨inner, hinner, hmodel⟩ := Option.bind_eq_some_iff.mp hm
    rw [modelAt, rewriteWithin, get_modify_self, h.other v key hkey, hinner]
    exact h.model inner (by rw [hmodel]; rfl)

theorem Renames.passes {f : Json → Json} (h : Renames name f) {u v : Json}
    (hv : v.get "model" = u.get "model") : Passes [none] name (u, .renamed) (u, f v) := by
  refine ⟨rfl, ?_⟩
  intro place hplace m hm
  obtain rfl := List.mem_singleton.mp hplace
  have hmodel : u.get "model" = some m := hm
  exact h.model v (by rw [hv, hmodel]; rfl)

/-- The JSON value of an event that comes from an event of the upstream. -/
def readChunk (parse : String → Option Json) : SseEvent → Option Json
  | .chunk v => some v
  | .raw data => parse data
  | _ => none

def pairs (parse : String → Option Json) (item : Item) (events : List SseEvent) :
    List (Json × Json) :=
  match item.toOption.bind fun event ↦ parse event.data with
  | none => []
  | some u => (events.filterMap (readChunk parse)).map fun v ↦ (u, v)

section Chat

variable (texts : Texts) (cfg : StreamConfig)

def simdValue (data : String) : Option Json := (texts.simdFromStr data).toOption

def chatReturned (s : StreamState) : List Item → List (Json × Json)
  | [] => []
  | item :: items =>
    let r := onItem texts cfg s item
    pairs (simdValue texts) item r.1 ++ chatReturned r.2 items

def reparses (data : String) : Bool :=
  cfg.needsJsonRoundtrip || hasEmptyChoicesMarker data.toList || hasModelFieldMarker data.toList

def chatSent (item : Item) : Option (Json × Fate) :=
  if isDone item || isPing texts cfg item then none
  else
    (item.toOption.bind fun event ↦ (simdValue texts event.data).map fun u ↦
      (u, if reparses cfg event.data then .renamed else .kept))

variable {texts cfg}

theorem applyPrefix_model (value : Json) (applied : Bool) :
    (applyPrefix cfg value applied).1.get "model" = value.get "model" := by
  rw [applyPrefix]
  split
  · split
    · split
      · rfl
      · unfold StreamConfig.contentPointer
        split <;> exact get_pointerModify_ne (by decide) _ _ value
    · rfl
  · rfl

theorem transformChunk_model (value : Json) (t : ThinkingStreamTransformer) :
    (transformChunk cfg value t).1.get "model" = value.get "model" := by
  rw [transformChunk]
  split
  · split
    · exact get_pointerModify_ne (by decide) _ _ value
    · rfl
  · rfl

theorem ensureNonEmptyChoices_model (isChat : Bool) (value : Json) :
    (ensureNonEmptyChoices isChat value).get "model" = value.get "model" := by
  cases value with
  | obj fields =>
    rw [ensureNonEmptyChoices]
    split
    · exact Json.Fields.get_insert_ne (by decide) _ fields
    · rfl
  | null | bool | num | str | arr => rfl

theorem pairs_of_data {event : UpstreamEvent} (e : SseEvent) :
    pairs (simdValue texts) (.ok event) [e] =
      ((simdValue texts event.data).bind fun u ↦
        (readChunk (simdValue texts) e).map fun v ↦ (u, v)).toList := by
  rw [pairs]
  show (match simdValue texts event.data with
    | none => []
    | some u => _) = _
  cases simdValue texts event.data with
  | none => rfl
  | some u => cases h : readChunk (simdValue texts) e <;> simp [h]

theorem chatSent_of_data {event : UpstreamEvent} (hdone : event.data ≠ "[DONE]")
    (hping : isPing texts cfg (.ok event) = false) :
    chatSent texts cfg (.ok event) = (simdValue texts event.data).map fun u ↦
      (u, if reparses cfg event.data then .renamed else .kept) := by
  simp [chatSent, isDone, hdone, hping, Except.toOption]

theorem pairs_of_unread {item : Item} {events : List SseEvent}
    (h : ∀ e ∈ events, readChunk (simdValue texts) e = none) :
    pairs (simdValue texts) item events = [] := by
  rw [pairs]
  split
  · rfl
  · rw [List.map_eq_nil_iff, List.filterMap_eq_nil_iff]
    exact h

theorem passes_onEvent (hecho : cfg.echoInboundModel = true) (s : StreamState)
    {event : UpstreamEvent} {u : Json} (hu : texts.simdFromStr event.data = .ok u)
    (hdone : event.data ≠ "[DONE]") (hping : isPing texts cfg (.ok event) = false) :
    ∃ e v, (onItem texts cfg s (.ok event)).1 = [e] ∧
      readChunk (simdValue texts) e = some v ∧
      Passes [none] cfg.modelName
        (u, if reparses cfg event.data then .renamed else .kept) (u, v) := by
  have hnot : ¬(cfg.isChat && isChatCompletionPing texts event) = true := by
    simpa [isPing, hdone] using hping
  have hrenames := renames_rewriteChunkModel cfg.modelName
  simp only [onItem, onEvent, if_neg hdone, if_neg hnot, hecho, Bool.true_and]
  by_cases hround : cfg.needsJsonRoundtrip = true
  · have hparsed : reparses cfg event.data = true := by simp [reparses, hround]
    rw [if_pos hround, if_pos hparsed, onRoundtrip, hu]
    refine ⟨_, _, rfl, rfl, ?_⟩
    rw [echoModel, if_pos hecho]
    refine hrenames.passes ?_
    rw [ensureNonEmptyChoices_model, transformChunk_model, applyPrefix_model]
  rw [if_neg hround]
  by_cases hchoices : hasEmptyChoicesMarker event.data.toList = true
  · have hparsed : reparses cfg event.data = true := by simp [reparses, hchoices]
    rw [if_pos hchoices, if_pos hparsed, onPatched, hu]
    refine ⟨_, _, rfl, rfl, ?_⟩
    rw [echoModel, if_pos hecho]
    exact hrenames.passes (ensureNonEmptyChoices_model _ u)
  rw [if_neg hchoices]
  by_cases hmodel : hasModelFieldMarker event.data.toList = true
  · have hparsed : reparses cfg event.data = true := by simp [reparses, hmodel]
    rw [if_pos hmodel, if_pos hparsed, onPatched, hu]
    exact ⟨_, _, rfl, rfl, hrenames.passes rfl⟩
  · have hraw : ¬reparses cfg event.data = true := by simp [reparses, hround, hchoices, hmodel]
    rw [if_neg hmodel, if_neg hraw]
    exact ⟨_, u, rfl, by rw [readChunk, simdValue, hu]; rfl, passes_kept _ _ u⟩

theorem passes_onItem (hecho : cfg.echoInboundModel = true) (s : StreamState) (item : Item) :
    List.Forall₂ (Passes [none] cfg.modelName) (chatSent texts cfg item).toList
      (pairs (simdValue texts) item (onItem texts cfg s item).1) := by
  cases item with
  | error message => exact .nil
  | ok event =>
    by_cases hdone : event.data = "[DONE]"
    · have hsent : chatSent texts cfg (.ok event) = none := by simp [chatSent, isDone, hdone]
      have hreturned : (onItem texts cfg s (.ok event)).1 = (onDone texts cfg s).1 := by
        simp [onItem, onEvent, hdone]
      rw [hsent, hreturned, pairs_of_unread]
      · exact .nil
      · rcases onDone_events texts cfg s with h | ⟨delta, h⟩ <;> simp [h, readChunk]
    cases hping : isPing texts cfg (.ok event) with
    | true =>
      have hsent : chatSent texts cfg (.ok event) = none := by simp [chatSent, hping]
      have hreturned : (onItem texts cfg s (.ok event)).1 = [.comment "keepalive"] := by
        have hcond : (cfg.isChat && isChatCompletionPing texts event) = true := by
          simpa [isPing, hdone] using hping
        simp only [onItem, onEvent, if_neg hdone, if_pos hcond]
      rw [hsent, hreturned, pairs_of_unread (by simp [readChunk])]
      exact .nil
    | false =>
      rw [chatSent_of_data hdone hping]
      cases hu : texts.simdFromStr event.data with
      | error data =>
        have hnone : simdValue texts event.data = none := by rw [simdValue, hu]; rfl
        rw [hnone, pairs]
        show List.Forall₂ _ [] (match simdValue texts event.data with
          | none => []
          | some u => _)
        rw [hnone]
        exact .nil
      | ok u =>
        have hsome : simdValue texts event.data = some u := by rw [simdValue, hu]; rfl
        obtain ⟨e, v, he, hv, hpasses⟩ := passes_onEvent hecho s hu hdone hping
        rw [he, pairs_of_data, hsome, Option.bind_some, hv]
        exact .cons hpasses .nil

theorem passes_chatReturned (hecho : cfg.echoInboundModel = true) (s : StreamState)
    (items : List Item) :
    List.Forall₂ (Passes [none] cfg.modelName) (items.filterMap (chatSent texts cfg))
      (chatReturned texts cfg s items) := by
  rw [List.filterMap_eq_flatMap_toList]
  induction items generalizing s with
  | nil => exact .nil
  | cons item items ih =>
    rw [List.flatMap_cons, chatReturned]
    exact List.rel_append (passes_onItem hecho s item) (ih _)

end Chat

section Typed

variable (texts : Texts)

def forwardEvent (echoInboundModel : Bool) (rewrite : Json → Json) (event : UpstreamEvent) :
    SseEvent :=
  if echoInboundModel && hasModelFieldMarker event.data.toList then
    match texts.serdeFromStr event.data with
    | some value => .chunk (rewrite value)
    | none => .raw event.data
  else .raw event.data

def rewriteResponsesEvent (inboundModel : String) : Json → Json :=
  rewriteWithin (rewriteChunkModel inboundModel) "response"

def rewriteAnthropicEvent (inboundModel : String) : Json → Json :=
  rewriteWithin (insertModel inboundModel) "message"

def typedReturned (echoInboundModel : Bool) (rewrite : Json → Json) (items : List Item) :
    List (Json × Json) :=
  items.flatMap fun item ↦ pairs texts.serdeFromStr item
    (item.toOption.map (forwardEvent texts echoInboundModel rewrite)).toList

def typedSent (item : Item) : Option (Json × Fate) :=
  item.toOption.bind fun event ↦ (texts.serdeFromStr event.data).map fun u ↦
    (u, if hasModelFieldMarker event.data.toList then .renamed else .kept)

variable {texts}

theorem passes_forwardEvent {f : Json → Json} (h : Renames name f) {key : String}
    (hkey : key ≠ "model") (item : Item) :
    List.Forall₂ (Passes [none, some key] name) (typedSent texts item).toList
      (pairs texts.serdeFromStr item
        (item.toOption.map (forwardEvent texts true (rewriteWithin f key))).toList) := by
  cases item with
  | error message => exact .nil
  | ok event =>
    have hoption : (Except.ok event : Item).toOption = some event := rfl
    rw [typedSent, pairs, hoption]
    simp only [Option.bind_some, Option.map_some, Option.toList_some]
    cases hu : texts.serdeFromStr event.data with
    | none => exact .nil
    | some u =>
      rw [forwardEvent, Bool.true_and]
      by_cases hmodel : hasModelFieldMarker event.data.toList = true
      · simp only [if_pos hmodel, hu]
        exact .cons (h.passes_within hkey u) .nil
      · simp only [if_neg hmodel]
        simp only [List.filterMap_cons, readChunk, hu]
        exact .cons (passes_kept _ _ u) .nil

theorem passes_typedReturned {f : Json → Json} (h : Renames name f) {key : String}
    (hkey : key ≠ "model") (items : List Item) :
    List.Forall₂ (Passes [none, some key] name) (items.filterMap (typedSent texts))
      (typedReturned texts true (rewriteWithin f key) items) := by
  rw [List.filterMap_eq_flatMap_toList]
  induction items with
  | nil => exact .nil
  | cons item items ih =>
    rw [List.flatMap_cons, typedReturned, List.flatMap_cons]
    exact List.rel_append (passes_forwardEvent h hkey item) ih

end Typed

end QueQiao.ModelEcho
