import QueQiao.Handlers.MessageUtils
import QueQiao.Lib.Traversal

namespace QueQiao.MessageUtils

open Lib.Traversal
open Json (Fields)
open RequestBody

/-- The value under a field of a message or a part: at its place, where the fields stand in an
array. -/
def sent (names : List String) (item : Json) (key : String) : Option Json :=
  (fieldsOf names item).bind fun field ↦ field key

def trimmedValue : Json → Json
  | .str s => .str (trimmed s)
  | v => v

def SamePart (item item' : Json) : Prop :=
  ∀ key v, sent partFields item key = some v →
    item'.get key = some
      (if key = "text" ∧ ofString (sent partFields item "type") = some "text" then trimmedValue v
        else v)

/-- The content `v'` is `v` but for the white space around its texts and the think blocks. -/
def SameContent (role : String) (v v' : Json) : Prop :=
  match v with
  | .str c => v' = (cleanedContent role (.string c)).toJson
  | .arr items => ∃ items', v' = .arr items' ∧ List.Forall₂ SamePart items items'
  | _ => v' = v

/-- Every field of the message `j` is in `u`. -/
def Carried (j u : Json) : Prop :=
  ∃ role, sent messageFields j "role" = some (.str role) ∧
    ∀ key v, sent messageFields j key = some v →
      ∃ v', u.get key = some v' ∧ if key = "content" then SameContent role v v' else v' = v

def kept (j : Json) : Bool := (Message.ofJson j).any keeps

/-- The messages of a body are the kept ones of `js`, with all their fields. -/
def CarriesMessages (js : List Json) (body : Fields) : Prop :=
  ∃ us, body.get "messages" = some (.arr us) ∧ List.Forall₂ Carried (js.filter kept) us

/-- All fields of a part are declared, and none is null. -/
def PartDeclared (item : Json) : Prop :=
  ∀ key v, sent partFields item key = some v → key ∈ partFields ∧ v ≠ .null

/-- All fields of a message and of its parts are declared, and none but the content is null. -/
structure Declared (j : Json) : Prop where
  fields : ∀ key v, sent messageFields j key = some v →
    key ∈ messageFields ∧ (v = .null → key = "content")
  parts : ∀ items, sent messageFields j "content" = some (.arr items) →
    ∀ item ∈ items, PartDeclared item

theorem map_str_ofOptionalString {v : Option Json} {s : Option String}
    (h : ofOptionalString v = some s) : s.map Json.str = ofOptionalValue v := by
  cases v with
  | none =>
    cases h
    rfl
  | some v =>
    cases v with
    | null =>
      cases h
      rfl
    | str t =>
      cases h
      rfl
    | bool b => cases h
    | num n => cases h
    | arr items => cases h
    | obj fields => cases h

theorem ofOptionalValue_some_eq_some {v w : Json} :
    ofOptionalValue (some v) = some w ↔ v ≠ .null ∧ v = w := by
  cases v <;> simp [ofOptionalValue]

theorem eq_str_of_ofString {v : Option Json} {s : String} (h : ofString v = some s) :
    v = some (.str s) := by
  cases v with
  | none => cases h
  | some v =>
    cases v with
    | str t =>
      cases h
      rfl
    | null => cases h
    | bool b => cases h
    | num n => cases h
    | arr items => cases h
    | obj fields => cases h

theorem get_obj_assign (assignments : Assignments) (key : String) :
    (Json.obj (assign assignments [])).get key = assigned key assignments := by
  have h := get_assign key assignments []
  exact h.trans Option.or_none

theorem sent_eq {names : List String} {item : Json} {field : String → Option Json}
    (h : fieldsOf names item = some field) : sent names item = field := by
  funext key
  rw [sent, h, Option.bind_some]

theorem ContentPart.sent_of_ofJson {item : Json} {part : ContentPart}
    (h : ContentPart.ofJson item = some part) :
    sent partFields item "type" = some (.str part.type) ∧
      part.text.map Json.str = ofOptionalValue (sent partFields item "text") ∧
      part.imageUrl = ofOptionalValue (sent partFields item "image_url") := by
  obtain ⟨field, hfield, h⟩ := Option.bind_eq_some_iff.mp h
  obtain ⟨type, htype, h⟩ := Option.bind_eq_some_iff.mp h
  obtain ⟨text, htext, rfl⟩ := Option.map_eq_some_iff.mp h
  rw [sent_eq hfield]
  exact ⟨eq_str_of_ofString htype, map_str_ofOptionalString htext, rfl⟩

theorem Message.sent_of_ofJson {j : Json} {msg : Message} (h : Message.ofJson j = some msg) :
    sent messageFields j "role" = some (.str msg.role) ∧
      MessageContent.ofJson (sent messageFields j "content") = some msg.content ∧
      msg.reasoning.map Json.str = ofOptionalValue (sent messageFields j "reasoning") ∧
      msg.reasoningContent.map Json.str =
        ofOptionalValue (sent messageFields j "reasoning_content") ∧
      msg.toolCalls = ofOptionalValue (sent messageFields j "tool_calls") ∧
      msg.toolCallId.map Json.str = ofOptionalValue (sent messageFields j "tool_call_id") := by
  obtain ⟨field, hfield, h⟩ := Option.bind_eq_some_iff.mp h
  obtain ⟨role, hrole, h⟩ := Option.bind_eq_some_iff.mp h
  obtain ⟨content, hcontent, h⟩ := Option.bind_eq_some_iff.mp h
  obtain ⟨reasoning, hreasoning, h⟩ := Option.bind_eq_some_iff.mp h
  obtain ⟨reasoningContent, hreasoningContent, h⟩ := Option.bind_eq_some_iff.mp h
  obtain ⟨toolCallId, htoolCallId, rfl⟩ := Option.map_eq_some_iff.mp h
  rw [sent_eq hfield]
  exact ⟨eq_str_of_ofString hrole, hcontent, map_str_ofOptionalString hreasoning,
    map_str_ofOptionalString hreasoningContent, rfl, map_str_ofOptionalString htoolCallId⟩

theorem sanitizePart_eq (part : ContentPart) : sanitizePart part =
    { part with text := part.text.map fun s ↦ if part.type = "text" then trimmed s else s } := by
  rw [sanitizePart]
  split
  · rfl
  · rw [Option.map_id']

theorem get_toJson_sanitizePart {item : Json} {part : ContentPart}
    (h : ContentPart.ofJson item = some part) (key : String) :
    (sanitizePart part).toJson.get key =
      if key ∈ partFields then (ofOptionalValue (sent partFields item key)).map fun v ↦
        if key = "text" ∧ ofString (sent partFields item "type") = some "text" then trimmedValue v
        else v
      else none := by
  obtain ⟨htype, htext, himage⟩ := ContentPart.sent_of_ofJson h
  have htypeOf : ofString (sent partFields item "type") = some part.type := by
    rw [htype]
    rfl
  rw [ContentPart.toJson, get_obj_assign, htypeOf, sanitizePart_eq]
  by_cases hkey : key ∈ partFields
  · rw [if_pos hkey]
    obtain rfl | rfl | rfl : key = "type" ∨ key = "text" ∨ key = "image_url" := by
      simpa [partFields] using hkey
    · rw [htype]
      simp [ContentPart.assignments, assigned, ofOptionalValue]
    · rw [← htext]
      simp only [ContentPart.assignments, assigned]
      cases part.text with
      | none => rfl
      | some s =>
        by_cases htext : part.type = "text"
        · simp [htext, trimmedValue]
        · simp [htext]
    · rw [← himage]
      simp [ContentPart.assignments, assigned]
  · rw [if_neg hkey, assigned_eq_none]
    exact hkey

theorem get_toJson_cleaned {j : Json} {msg : Message} (h : Message.ofJson j = some msg)
    (key : String) :
    (cleaned msg).toJson.get key =
      if key = "content" then
        some (((msg.content.map (cleanedContent msg.role)).map MessageContent.toJson).getD .null)
      else if key ∈ messageFields then ofOptionalValue (sent messageFields j key) else none := by
  obtain ⟨hrole, -, hreasoning, hreasoningContent, htoolCalls, htoolCallId⟩ :=
    Message.sent_of_ofJson h
  rw [Message.toJson, get_obj_assign, cleaned_eq]
  by_cases hcontent : key = "content"
  · subst hcontent
    simp [Message.assignments, assigned]
  · rw [if_neg hcontent]
    by_cases hkey : key ∈ messageFields
    · rw [if_pos hkey]
      obtain rfl | rfl | rfl | rfl | rfl : key = "role" ∨ key = "reasoning" ∨
          key = "reasoning_content" ∨ key = "tool_calls" ∨ key = "tool_call_id" := by
        simpa [messageFields, hcontent] using hkey
      · rw [hrole]
        simp [Message.assignments, assigned, ofOptionalValue]
      · rw [← hreasoning]
        simp [Message.assignments, assigned]
      · rw [← hreasoningContent]
        simp [Message.assignments, assigned]
      · rw [← htoolCalls]
        simp [Message.assignments, assigned]
      · rw [← htoolCallId]
        simp [Message.assignments, assigned]
    · rw [if_neg hkey, assigned_eq_none]
      exact hkey

theorem samePart_iff {item : Json} {part : ContentPart} (h : ContentPart.ofJson item = some part) :
    SamePart item (sanitizePart part).toJson ↔ PartDeclared item := by
  constructor
  · intro hsame key v hsent
    have hget := hsame key v hsent
    rw [get_toJson_sanitizePart h, hsent] at hget
    split at hget
    · rename_i hkey
      refine ⟨hkey, ?_⟩
      rintro rfl
      cases hget
    · cases hget
  · intro hdeclared key v hsent
    obtain ⟨hkey, hnull⟩ := hdeclared key v hsent
    rw [get_toJson_sanitizePart h, if_pos hkey, hsent,
      ofOptionalValue_some_eq_some.mpr ⟨hnull, rfl⟩]
    rfl

theorem sameContent_iff {role : String} {v : Json} {content : Option MessageContent}
    (h : MessageContent.ofJson (some v) = some content) :
    SameContent role v
        (((content.map (cleanedContent role)).map MessageContent.toJson).getD .null) ↔
      ∀ items, v = .arr items → ∀ item ∈ items, PartDeclared item := by
  cases v with
  | null =>
    cases h
    simp [SameContent]
  | str c =>
    cases h
    simp [SameContent]
  | arr items =>
    obtain ⟨parts, hparts, rfl⟩ := Option.map_eq_some_iff.mp h
    have hitems := forall₂_map_right_iff_forall
      (fun item part (hpart : ContentPart.ofJson item = some part) ↦ samePart_iff hpart)
      (mapM_eq_some.mp hparts)
    simp [SameContent, cleanedContent, MessageContent.toJson, Function.comp_def, hitems]
  | bool b => cases h
  | num n => cases h
  | obj fields => cases h

theorem carried_iff {j : Json} {msg : Message} (h : Message.ofJson j = some msg) :
    Carried j (cleaned msg).toJson ↔ Declared j := by
  obtain ⟨hrole, hcontent, -⟩ := Message.sent_of_ofJson h
  constructor
  · rintro ⟨role, hsentRole, hall⟩
    obtain rfl : msg.role = role := by
      rw [hrole, Option.some.injEq, Json.str.injEq] at hsentRole
      exact hsentRole
    constructor
    · intro key v hsent
      obtain ⟨v', hget, -⟩ := hall key v hsent
      rw [get_toJson_cleaned h] at hget
      by_cases hkey : key = "content"
      · subst hkey
        exact ⟨by decide, fun _ ↦ rfl⟩
      · rw [if_neg hkey] at hget
        split at hget
        · rename_i hdeclared
          refine ⟨hdeclared, ?_⟩
          rintro rfl
          rw [hsent] at hget
          cases hget
        · cases hget
    · intro items hsent
      obtain ⟨v', hget, hsame⟩ := hall "content" _ hsent
      rw [get_toJson_cleaned h, if_pos rfl, Option.some.injEq] at hget
      rw [if_pos rfl, ← hget] at hsame
      rw [hsent] at hcontent
      exact (sameContent_iff hcontent).mp hsame items rfl
  · intro hdeclared
    refine ⟨msg.role, hrole, fun key v hsent ↦ ?_⟩
    rw [get_toJson_cleaned h]
    by_cases hkey : key = "content"
    · subst hkey
      rw [if_pos rfl]
      refine ⟨_, rfl, ?_⟩
      rw [if_pos rfl]
      rw [hsent] at hcontent
      refine (sameContent_iff hcontent).mpr fun items hitems ↦ ?_
      exact hdeclared.parts items (hitems ▸ hsent)
    · obtain ⟨hfield, hnull⟩ := hdeclared.fields key v hsent
      have hsome := ofOptionalValue_some_eq_some.mpr ⟨fun hv ↦ hkey (hnull hv), rfl⟩
      rw [if_neg hkey, if_pos hfield, hsent]
      exact ⟨v, hsome, by rw [if_neg hkey]⟩

section

variable (p : ChatCompletionRequest) (client : ClientConfig) (settings : BodySettings)
  (stream : Bool)

/-- The body that goes upstream for the messages `ms` and the other fields of `p`. -/
def chatBody (ms : List Message) : Fields :=
  buildRequestBodyGeneric
    (.chat { p with messages := (prepareChatRequest ms).map Message.toJson }) client settings stream

theorem get_chatBody (ms : List Message) :
    (chatBody p client settings stream ms).get "messages" =
      some (.arr ((ms.filter keeps).map fun msg ↦ (cleaned msg).toJson)) := by
  have hmessages : (prepareChatRequest ms).map Message.toJson =
      (ms.filter keeps).map fun msg ↦ (cleaned msg).toJson := by
    rw [prepareChatRequest_eq, List.map_map]
    rfl
  rw [chatBody, hmessages]
  apply buildRequestBodyGeneric_kept (by decide)
  rw [get_inner_chat settings stream _ (by decide)]
  simp [assigned]

/-- The upstream body has every field of the kept messages and of their parts exactly where the
client sends declared fields only, and none of them null. -/
theorem carriesMessages_iff {js : List Json} {ms : List Message}
    (h : js.mapM Message.ofJson = some ms) :
    CarriesMessages js (chatBody p client settings stream ms) ↔
      ∀ j ∈ js, kept j = true → Declared j := by
  have hkept : List.Forall₂ (fun j msg ↦ Message.ofJson j = some msg) (js.filter kept)
      (ms.filter keeps) := by
    refine List.rel_filter (R := fun j msg ↦ Message.ofJson j = some msg) ?_ (mapM_eq_some.mp h)
    intro j msg hj
    show kept j = true ↔ keeps msg = true
    rw [kept, hj]
    rfl
  have hcarried := forall₂_map_right_iff_forall
    (fun j msg (hj : Message.ofJson j = some msg) ↦ carried_iff hj) hkept
  rw [CarriesMessages, get_chatBody]
  constructor
  · rintro ⟨us, hus, hall⟩ j hj hkeep
    obtain rfl := Json.arr.inj (Option.some.inj hus)
    exact hcarried.mp hall j (List.mem_filter.mpr ⟨hj, hkeep⟩)
  · intro hdeclared
    refine ⟨_, rfl, hcarried.mpr fun j hj ↦ ?_⟩
    exact hdeclared j (List.mem_filter.mp hj).1 (List.mem_filter.mp hj).2

end

def helloMessage : Message := { role := "user", content := some (.string "hi") }

def helloJson : Json := .obj [("content", .str "hi"), ("role", .str "user")]

theorem carriesMessages_iff_hello :
    CarriesMessages [helloJson]
      (chatBody { model := "m", messages := [], extra := ⟨[], rfl⟩ } {} {} true [helloMessage]) := by
  have hdecoded : [helloJson].mapM Message.ofJson = some [helloMessage] := rfl
  refine (carriesMessages_iff _ _ _ _ hdecoded).mpr fun j hj _ ↦ ?_
  obtain rfl := List.mem_singleton.mp hj
  have hsent (key : String) : sent messageFields helloJson key =
      if key = "content" then some (.str "hi")
      else if key = "role" then some (.str "user") else none := by
    by_cases hcontent : key = "content"
    · subst hcontent
      rfl
    · by_cases hrole : key = "role"
      · subst hrole
        rfl
      · simp [sent, helloJson, fieldsOf, Fields.get, List.lookup_cons, hcontent, hrole,
          beq_eq_false_iff_ne.mpr hcontent, beq_eq_false_iff_ne.mpr hrole]
  constructor
  · intro key v hv
    rw [hsent] at hv
    split at hv
    · rename_i hkey
      exact ⟨hkey ▸ by decide, fun _ ↦ hkey⟩
    · split at hv
      · rename_i hkey
        refine ⟨hkey ▸ by decide, fun hnull ↦ ?_⟩
        rw [hnull] at hv
        cases hv
      · cases hv
  · intro items hitems
    cases hitems

def namedJson : Json := .obj [("content", .str "hi"), ("name", .str "bob"), ("role", .str "user")]

theorem undeclared_name_dropped : ¬ ∀ (js : List Json) (ms : List Message)
    (p : ChatCompletionRequest) (client : ClientConfig) (settings : BodySettings) (stream : Bool),
    js.mapM Message.ofJson = some ms →
      CarriesMessages js (chatBody p client settings stream ms) := by
  intro hall
  have hdecoded : Message.ofJson namedJson = some helloMessage := rfl
  have hkeeps : keeps helloMessage = true := by decide +kernel
  have hkept : kept namedJson = true := hkeeps
  obtain ⟨us, hus, hcarried⟩ := hall [namedJson] [helloMessage]
    { model := "m", messages := [], extra := ⟨[], rfl⟩ } {} {} true rfl
  rw [get_chatBody, List.filter_cons_of_pos hkeeps] at hus
  obtain rfl := Json.arr.inj (Option.some.inj hus)
  rw [List.filter_cons_of_pos hkept] at hcarried
  have hdeclared := (carried_iff hdecoded).mp (List.forall₂_cons.mp hcarried).1
  exact absurd (hdeclared.fields "name" (.str "bob") rfl).1 (by decide)

end QueQiao.MessageUtils
