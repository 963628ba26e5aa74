import QueQiao.Db.Extract

namespace QueQiao.Extract

open Json Legacy RequestBody
open Lib.ByteIndex (Fault)
open StreamLoggers (textOf)

structure Turn where
  role : String
  text : String
  nonempty : text ≠ ""

structure PartOf (kinds : List String) (text : String) (part : Json) : Prop where
  nonempty : text ≠ ""
  text : textOf part "text" = some text
  kind : ∃ kind ∈ kinds, textOf part "type" = some kind

/-- The content of a message is its text, or has the lines of its text as parts. -/
structure Carries (kinds : List String) (turn : Turn) (message : Json) : Prop where
  role : textOf message "role" = some turn.role
  content : message.get "content" = some (.str turn.text) ∨
    ∃ texts parts, message.get "content" = some (.arr parts) ∧
      turn.text = "\n".intercalate texts ∧ List.Forall₂ (PartOf kinds) texts parts

def textKinds : List String := ["text"]

def itemKinds : List String := ["input_text", "output_text"]

def lastUser (turns : List Turn) : String :=
  ((turns.reverse.find? (·.role = "user")).map (·.text)).getD ""

def lastAny (turns : List Turn) : String := (turns.getLast?.map (·.text)).getD ""

def recorded (limits : Limits) (turns : List Turn) (toolCount : ℕ) : Except Fault RequestExtract :=
  withTexts limits (lastUser turns) (lastAny turns)
    { messageCount := turns.length
      systemCount := turns.countP (·.role ∈ systemRoles)
      assistantCount := turns.countP (·.role = "assistant")
      toolResultCount := turns.countP (·.role = "tool")
      toolCount := toolCount }

section Message

variable {kinds : List String} {turn : Turn} {message : Json}

theorem Carries.role_eq (h : Carries kinds turn message) : Extract.role message = turn.role := by
  rw [Extract.role, h.role, Option.getD_some]

theorem lookup_fieldTexts (fields : List (String × Json)) (key : String) :
    (fieldTexts fields).lookup key = (fields.lookup key).map valueText := by
  induction fields with
  | nil => rfl
  | cons field fields ih =>
    obtain ⟨k, v⟩ := field
    rw [fieldTexts, List.lookup_cons, List.lookup_cons]
    split
    · rfl
    · exact ih

theorem valueText_of_text {part : Json} {text : String} (h : textOf part "text" = some text) :
    valueText part = text := by
  obtain ⟨v, hget, hstr⟩ := Option.bind_eq_some_iff.mp h
  have hv : v = .str text := by
    cases v with
    | str s => exact congrArg Json.str (Option.some.inj hstr)
    | null | bool | num | arr | obj => cases hstr
  cases part with
  | obj fields =>
    have hlookup : fields.lookup "text" = some v := hget
    rw [valueText, lookup_fieldTexts, hlookup, hv, Option.map_some, Option.some_or,
      Option.getD_some, valueText]
  | null | bool | num | str | arr => cases hget

theorem valueTexts_parts {texts : List String} {parts : List Json}
    (h : List.Forall₂ (PartOf kinds) texts parts) :
    (valueTexts parts).filter (· ≠ "") = texts := by
  induction h with
  | nil => rfl
  | cons hpart _ ih =>
    rw [valueTexts, valueText_of_text hpart.text,
      List.filter_cons_of_pos (by simpa using hpart.nonempty), ih]

theorem partTexts {texts : List String} {parts : List Json}
    (h : List.Forall₂ (PartOf textKinds) texts parts) : parts.filterMap partText = texts := by
  induction h with
  | nil => rfl
  | cons hpart _ ih =>
    obtain ⟨kind, hkind, htype⟩ := hpart.kind
    rw [List.mem_singleton.mp hkind] at htype
    rw [List.filterMap_cons, partText, if_pos htype, hpart.text, ih]

theorem countP_parts {texts : List String} {parts : List Json} {p : Json → Bool}
    (h : List.Forall₂ (PartOf kinds) texts parts)
    (hp : ∀ part, (∃ kind ∈ kinds, textOf part "type" = some kind) → p part = false) :
    ∀ part ∈ parts, p part = false := by
  induction h with
  | nil => exact fun _ hmem ↦ absurd hmem List.not_mem_nil
  | cons hpart _ ih => exact List.forall_mem_cons.mpr ⟨hp _ hpart.kind, ih⟩

theorem Carries.itemText_eq (h : Carries kinds turn message) : itemText message = turn.text := by
  rw [itemText]
  rcases h.content with hstr | ⟨texts, parts, harr, htext, hparts⟩
  · rw [hstr, Option.map_some, Option.getD_some, valueText]
  · rw [harr, Option.map_some, Option.getD_some, valueText, valueTexts_parts hparts, htext]

theorem Carries.contentText_eq (h : Carries textKinds turn message) :
    contentText (message.get "content") = turn.text := by
  rcases h.content with hstr | ⟨texts, parts, harr, htext, hparts⟩
  · rw [hstr, contentText]
  · rw [harr, contentText, partTexts hparts, htext]

theorem Carries.contentImages_eq (h : Carries textKinds turn message) :
    contentImages (message.get "content") = 0 := by
  rcases h.content with hstr | ⟨texts, parts, harr, -, hparts⟩
  · rw [hstr]
    rfl
  · rw [harr, contentImages, List.countP_eq_zero]
    refine fun part hmem ↦
      Bool.eq_false_iff.mp (countP_parts hparts (fun part hkind ↦ ?_) part hmem)
    obtain ⟨kind, hkind, htype⟩ := hkind
    have heq : (part.get "type").bind Json.asStr = some "text" := by
      rw [List.mem_singleton.mp hkind] at htype
      exact htype
    rw [isImagePart, heq]
    decide

theorem Carries.countInputImages_eq (h : Carries itemKinds turn message) :
    countInputImages (message.get "content") = 0 := by
  rcases h.content with hstr | ⟨texts, parts, harr, -, hparts⟩
  · rw [hstr]
    rfl
  · rw [harr, countInputImages, List.countP_eq_zero]
    refine fun part hmem ↦
      Bool.eq_false_iff.mp (countP_parts hparts (fun part hkind ↦ ?_) part hmem)
    obtain ⟨kind, hkind, htype⟩ := hkind
    simp only [itemKinds, List.mem_cons, List.not_mem_nil, or_false] at hkind
    rcases hkind with rfl | rfl <;> simp [isInputImage, htype]

theorem Carries.hasToolResult_eq (h : Carries textKinds turn message) :
    hasToolResult (message.get "content") = false := by
  rcases h.content with hstr | ⟨texts, parts, harr, -, hparts⟩
  · rw [hstr]
    rfl
  · have hnone := countP_parts (p := fun part ↦ decide (textOf part "type" = some "tool_result"))
      hparts fun part ⟨kind, hkind, htype⟩ ↦ by
        rw [List.mem_singleton.mp hkind] at htype
        rw [htype]
        decide
    rw [harr, hasToolResult, List.any_eq_false]
    exact fun part hmem ↦ Bool.eq_false_iff.mp (hnone part hmem)

end Message

section Conversation

variable {kinds : List String} {turns : List Turn} {messages : List Json}

theorem countP_role (h : List.Forall₂ (Carries kinds) turns messages) (p : String → Bool) :
    messages.countP (fun m ↦ p (role m)) = turns.countP fun t ↦ p t.role := by
  induction h with
  | nil => rfl
  | cons hturn _ ih => rw [List.countP_cons, List.countP_cons, ih, hturn.role_eq]

theorem countP_false {p : Json → Bool} (h : List.Forall₂ (Carries kinds) turns messages)
    (hp : ∀ turn message, Carries kinds turn message → p message = false) :
    messages.countP p = 0 := by
  induction h with
  | nil => rfl
  | cons hturn _ ih => rw [List.countP_cons, ih, hp _ _ hturn]; rfl

theorem sum_zero {f : Json → ℕ} (h : List.Forall₂ (Carries kinds) turns messages)
    (hf : ∀ turn message, Carries kinds turn message → f message = 0) :
    (messages.map f).sum = 0 := by
  induction h with
  | nil => rfl
  | cons hturn _ ih => rw [List.map_cons, List.sum_cons, ih, hf _ _ hturn]

theorem lastUser_cons (turn : Turn) (turns : List Turn) (s : String) :
    (((turn :: turns).reverse.find? (·.role = "user")).map (·.text)).getD s =
      ((turns.reverse.find? (·.role = "user")).map (·.text)).getD
        (if turn.role = "user" then turn.text else s) := by
  rw [List.reverse_cons, List.find?_append]
  cases turns.reverse.find? (·.role = "user") with
  | some t => rfl
  | none => by_cases h : turn.role = "user" <;> simp [h]

theorem lastAny_cons (turn : Turn) (turns : List Turn) (s : String) :
    ((turn :: turns).getLast?.map (·.text)).getD s =
      (turns.getLast?.map (·.text)).getD turn.text := by
  rw [List.getLast?_cons]
  cases turns.getLast? <;> rfl

theorem foldl_item (h : List.Forall₂ (Carries kinds) turns messages) (s : LastTexts) :
    messages.foldl LastTexts.item s =
      ⟨((turns.reverse.find? (·.role = "user")).map (·.text)).getD s.lastUser,
        (turns.getLast?.map (·.text)).getD s.lastAny⟩ := by
  induction h generalizing s with
  | nil => rfl
  | @cons turn message turns messages hturn _ ih =>
    have hitem : s.item message =
        ⟨if turn.role = "user" then turn.text else s.lastUser, turn.text⟩ := by
      rw [LastTexts.item, hturn.itemText_eq, if_neg turn.nonempty, hturn.role_eq]
    rw [List.foldl_cons, ih, hitem, lastUser_cons, lastAny_cons]

theorem find_user (h : List.Forall₂ (Carries textKinds) turns messages) :
    contentText ((messages.reverse.find? fun m ↦ role m = "user").bind (·.get "content")) =
      lastUser turns := by
  have hreverse := List.rel_reverse h
  rw [lastUser]
  generalize turns.reverse = turns at *
  generalize messages.reverse = messages at *
  induction hreverse with
  | nil => rfl
  | @cons turn message turns messages hturn _ ih =>
    rw [List.find?_cons, List.find?_cons, hturn.role_eq]
    by_cases huser : turn.role = "user"
    · rw [decide_eq_true huser]
      exact hturn.contentText_eq
    · rw [decide_eq_false huser]
      exact ih

theorem getLast_content (h : List.Forall₂ (Carries textKinds) turns messages) :
    contentText (messages.getLast?.bind (·.get "content")) = lastAny turns := by
  have hreverse := List.rel_reverse h
  rw [lastAny, List.getLast?_eq_head?_reverse, List.getLast?_eq_head?_reverse]
  generalize turns.reverse = turns at *
  generalize messages.reverse = messages at *
  cases hreverse with
  | nil => rfl
  | cons hturn _ => exact hturn.contentText_eq

theorem chatExtract_eq {p : ChatCompletionRequest}
    (h : List.Forall₂ (Carries textKinds) turns p.messages) (limits : Limits) :
    chatExtract limits p = recorded limits turns (arrayLen p.tools) := by
  rw [chatExtract, recorded, find_user h, getLast_content h, h.length_eq,
    countP_role h fun r ↦ decide (r ∈ systemRoles), countP_role h fun r ↦ decide (r = "assistant"),
    countP_role h fun r ↦ decide (r = "tool"), sum_zero h fun _ _ hm ↦ hm.contentImages_eq]

theorem responsesExtract_eq (h : List.Forall₂ (Carries itemKinds) turns messages)
    (hkind : ∀ item ∈ messages, textOf item "type" ≠ some "function_call_output") (limits : Limits)
    (toolCount : ℕ) :
    responsesInputExtract limits toolCount (.arr messages) = recorded limits turns toolCount := by
  have hcalls : messages.countP (fun m ↦ textOf m "type" = some "function_call_output") = 0 :=
    List.countP_eq_zero.mpr fun item hitem ↦ by simpa using hkind item hitem
  have himages : (messages.map fun m ↦
      if itemText m = "" then 0 else countInputImages (m.get "content")).sum = 0 :=
    sum_zero h fun turn _ hm ↦ by rw [hm.itemText_eq, if_neg turn.nonempty, hm.countInputImages_eq]
  rw [responsesInputExtract, recorded, foldl_item h, h.length_eq, hcalls, himages,
    countP_role h fun r ↦ decide (r ∈ systemRoles), countP_role h fun r ↦ decide (r = "assistant"),
    countP_role h fun r ↦ decide (r = "tool")]
  rfl

theorem anthropicExtract_eq {p : AnthropicMessagesRequest}
    (hmessages : p.extra.fields.get "messages" = some (.arr messages))
    (h : List.Forall₂ (Carries textKinds) turns messages) (limits : Limits) :
    anthropicExtract limits p = withTexts limits (lastUser turns) (lastAny turns)
      { messageCount := turns.length
        systemCount := systemBlocks (p.extra.fields.get "system")
        assistantCount := turns.countP (·.role = "assistant")
        toolCount := arrayLen (p.extra.fields.get "tools") } := by
  have hresults : messages.countP (fun m ↦ hasToolResult (m.get "content")) = 0 :=
    countP_false h fun _ _ hm ↦ hm.hasToolResult_eq
  rw [anthropicExtract, hmessages]
  dsimp only
  rw [foldl_item h, h.length_eq, hresults, countP_role h fun r ↦ decide (r = "assistant")]
  rfl

end Conversation

theorem withTexts_with (limits : Limits) (prompt tail : String) (r : RequestExtract) (n : ℕ) :
    withTexts limits prompt tail { r with messageCount := n } =
      (withTexts limits prompt tail r).map fun r ↦ { r with messageCount := n } := by
  rw [withTexts, withTexts]
  cases Previews.truncateHead prompt.toList limits.promptMax with
  | error fault => rfl
  | ok prompt' => cases Previews.truncateHeadTail tail.toList limits.requestTailMax <;> rfl

section System

variable {system turns : List Turn}

theorem countP_system (hsystem : ∀ t ∈ system, t.role ∈ systemRoles) {r : String}
    (hr : r ∉ systemRoles) : (system ++ turns).countP (·.role = r) = turns.countP (·.role = r) := by
  have hnone : system.countP (·.role = r) = 0 :=
    List.countP_eq_zero.mpr fun t ht ↦ by
      rw [decide_eq_true_eq]
      exact fun heq ↦ hr (heq ▸ hsystem t ht)
  rw [List.countP_append, hnone, Nat.zero_add]

theorem countP_systemRoles (hsystem : ∀ t ∈ system, t.role ∈ systemRoles)
    (hturns : ∀ t ∈ turns, t.role ∉ systemRoles) :
    (system ++ turns).countP (·.role ∈ systemRoles) = system.length := by
  have hall : system.countP (·.role ∈ systemRoles) = system.length :=
    List.countP_eq_length.mpr fun t ht ↦ decide_eq_true (hsystem t ht)
  have hnone : turns.countP (·.role ∈ systemRoles) = 0 :=
    List.countP_eq_zero.mpr fun t ht ↦ by
      rw [decide_eq_true_eq]
      exact hturns t ht
  rw [List.countP_append, hall, hnone, Nat.add_zero]

theorem lastAny_append (hne : turns ≠ []) : lastAny (system ++ turns) = lastAny turns := by
  rw [lastAny, List.getLast?_append, lastAny]
  cases hlast : turns.getLast? with
  | none => exact absurd (List.getLast?_eq_none_iff.mp hlast) hne
  | some t => rfl

theorem lastUser_append (hsystem : ∀ t ∈ system, t.role ∈ systemRoles) :
    lastUser (system ++ turns) = lastUser turns := by
  have hnone : system.reverse.find? (·.role = "user") = none :=
    List.find?_eq_none.mpr fun t ht ↦ by
      have hrole := hsystem t (List.mem_reverse.mp ht)
      rw [decide_eq_true_eq]
      exact fun heq ↦ absurd (heq ▸ hrole) (by decide)
  rw [lastUser, List.reverse_append, List.find?_append, hnone, Option.or_none, lastUser]

end System

/-- A conversation is recorded alike in the three formats: however a message is cut into parts, the
prompt, the end, their sizes and the counts are those of the turns. A message that is not sent
among the messages is not counted there. -/
theorem formats_agree {system turns : List Turn} {p : ChatCompletionRequest} {q : ResponsesRequest}
    {a : AnthropicMessagesRequest} {items messages : List Json}
    (hchat : List.Forall₂ (Carries textKinds) (system ++ turns) p.messages)
    (hinput : q.input = .arr items)
    (hitems : List.Forall₂ (Carries itemKinds) (system ++ turns) items)
    (hkinds : ∀ item ∈ items, textOf item "type" ≠ some "function_call_output")
    (hmessages : a.extra.fields.get "messages" = some (.arr messages))
    (hanthropic : List.Forall₂ (Carries textKinds) turns messages)
    (hblocks : systemBlocks (a.extra.fields.get "system") = system.length)
    (hsystem : ∀ t ∈ system, t.role ∈ systemRoles)
    (hturns : ∀ t ∈ turns, t.role = "user" ∨ t.role = "assistant") (hne : turns ≠ [])
    (htools : arrayLen (q.extra.fields.get "tools") = arrayLen p.tools)
    (htools' : arrayLen (a.extra.fields.get "tools") = arrayLen p.tools) (limits : Limits) :
    extractRequest limits (.chat p) = recorded limits (system ++ turns) (arrayLen p.tools) ∧
      extractRequest limits (.responses q) = extractRequest limits (.chat p) ∧
      extractRequest limits (.anthropicMessages a) =
        (extractRequest limits (.chat p)).map fun r ↦ { r with messageCount := turns.length } := by
  have hrecorded : extractRequest limits (.chat p) =
      recorded limits (system ++ turns) (arrayLen p.tools) := chatExtract_eq hchat limits
  refine ⟨hrecorded, ?_, ?_⟩
  · rw [hrecorded, extractRequest, hinput, responsesExtract_eq hitems hkinds, htools]
  · have hnotSystem : ∀ t ∈ turns, t.role ∉ systemRoles := fun t ht ↦ by
      rcases hturns t ht with h | h <;> rw [h] <;> decide
    have htool : turns.countP (·.role = "tool") = 0 :=
      List.countP_eq_zero.mpr fun t ht ↦ by
        rcases hturns t ht with h | h <;> rw [h] <;> decide
    have hassistant : (system ++ turns).countP (·.role = "assistant") =
        turns.countP (·.role = "assistant") := countP_system hsystem (by decide)
    have htools₀ : (system ++ turns).countP (·.role = "tool") = 0 :=
      (countP_system hsystem (by decide)).trans htool
    rw [hrecorded, recorded, ← withTexts_with, extractRequest,
      anthropicExtract_eq hmessages hanthropic, lastAny_append hne, lastUser_append hsystem,
      countP_systemRoles hsystem hnotSystem, hassistant, htools₀, hblocks, htools']

def brief : Turn := ⟨"system", "brief", by decide⟩

def hi : Turn := ⟨"user", "hi", by decide⟩

def inOnePart (kind : String) (turn : Turn) : Json :=
  .obj [("role", .str turn.role),
    ("content", .arr [.obj [("type", .str kind), ("text", .str turn.text)]])]

theorem carries_inOnePart {kinds : List String} {kind : String} (hkind : kind ∈ kinds)
    (turn : Turn) : Carries kinds turn (inOnePart kind turn) where
  role := rfl
  content := .inr ⟨[turn.text], _, rfl, rfl, .cons ⟨turn.nonempty, rfl, kind, hkind, rfl⟩ .nil⟩

theorem get_model_nil : Fields.get [] "model" = none := rfl

def hiChat : ChatCompletionRequest where
  model := "m"
  messages := [brief, hi].map (inOnePart "text")
  extra := ⟨[], get_model_nil⟩

def hiResponses : ResponsesRequest where
  model := "m"
  input := .arr ([brief, hi].map (inOnePart "input_text"))
  extra := ⟨[], get_model_nil⟩

def hiMessages : AnthropicMessagesRequest where
  model := "m"
  extra := ⟨[("messages", .arr [inOnePart "text" hi]), ("system", .str "brief")], rfl⟩

theorem formats_agree_hi :
    extractRequest {} (.responses hiResponses) = extractRequest {} (.chat hiChat) ∧
      extractRequest {} (.anthropicMessages hiMessages) =
        (extractRequest {} (.chat hiChat)).map fun r ↦ { r with messageCount := 1 } :=
  have hchat := carries_inOnePart (List.mem_singleton.mpr rfl : "text" ∈ textKinds)
  have hitem := carries_inOnePart (List.mem_cons_self : "input_text" ∈ itemKinds)
  (@formats_agree [brief] [hi] hiChat hiResponses hiMessages _ _
    (.cons (hchat brief) (.cons (hchat hi) .nil)) rfl
    (.cons (hitem brief) (.cons (hitem hi) .nil)) (by decide) rfl (.cons (hchat hi) .nil) rfl
    (by decide) (by decide) (by decide) rfl rfl {}).2

end QueQiao.Extract
