import QueQiao.Db.SessionFingerprint
import Mathlib.Data.List.TakeWhile

namespace QueQiao.SessionFingerprint

section Forms

variable {digest : String → String} {render : Json → String}

def history (body : Json) : Option (List Json) :=
  ((body.get "messages").or (body.get "input")).bind asArray

/-- The first message that is not of the system, with which a conversation opens. -/
def opening (messages : List Json) : Option Json := messages.find? fun message ↦ !isSystem message

def messageText (render : Json → String) (message : Json) : String :=
  cappedText render ((message.get "content").getD .null)

def leadingSystem (render : Json → String) (messages : List Json) : Option String :=
  (messages.takeWhile isSystem).getLast?.map (messageText render)

def hashedText (render : Json → String) (system : String) (first : Json) : String :=
  system ++ "\x1f" ++ ((first.get "role").bind Json.asStr).getD "" ++ "\x1e" ++
    messageText render first

theorem conversationFingerprint_eq {body : Json} {messages : List Json}
    (h : history body = some messages) :
    conversationFingerprint digest render body = (opening messages).map fun first ↦
      digest (hashedText render
        ((((body.get "system").map (cappedText render)).or (leadingSystem render messages)).getD "")
        first) := by
  have hbody : conversationFingerprint digest render body = do
      let messages ← history body
      let first ← opening messages
      return digest (hashedText render
        ((((body.get "system").map (cappedText render)).or (leadingSystem render messages)).getD "")
        first) := rfl
  rw [hbody, h, Option.bind_eq_bind, Option.bind_some]
  cases opening messages <;> rfl

theorem opening_append {messages : List Json} (h : (opening messages).isSome) (more : List Json) :
    opening (messages ++ more) = opening messages := by
  obtain ⟨first, hfirst⟩ := Option.isSome_iff_exists.mp h
  rw [opening, List.find?_append]
  change (opening messages).or _ = _
  rw [hfirst]
  rfl

theorem leadingSystem_append {messages : List Json} (h : (opening messages).isSome)
    (more : List Json) :
    leadingSystem render (messages ++ more) = leadingSystem render messages := by
  have hsome : ¬∀ message ∈ messages, isSystem message = true := by
    obtain ⟨first, hfirst⟩ := Option.isSome_iff_exists.mp h
    intro hall
    have hsystem := hall first (List.mem_of_find?_eq_some hfirst)
    have hnot := List.find?_some hfirst
    rw [hsystem] at hnot
    cases hnot
  have hlength : (messages.takeWhile isSystem).length ≠ messages.length := by
    intro hlength
    exact hsome (List.takeWhile_eq_self_iff.mp ((List.takeWhile_prefix isSystem).eq_of_length hlength))
  rw [leadingSystem, List.takeWhile_append, if_neg hlength, leadingSystem]

/-- A conversation that goes on: its system text and its first message stay. -/
structure Continued (body longer : Json) : Prop where
  history : ∃ messages more, history body = some messages ∧
    history longer = some (messages ++ more) ∧ opening (messages ++ more) = opening messages
  system : longer.get "system" = body.get "system"

theorem Continued.of_opened {body longer : Json} {messages more : List Json}
    (hbody : SessionFingerprint.history body = some messages) (hopened : (opening messages).isSome)
    (hlonger : SessionFingerprint.history longer = some (messages ++ more))
    (hsystem : longer.get "system" = body.get "system") : Continued body longer :=
  ⟨⟨messages, more, hbody, hlonger, opening_append hopened more⟩, hsystem⟩

/-- The system text of a body as its field, and as the message that another body starts with. -/
structure SameSystem (field message : Json) (content : Json) (messages : List Json) : Prop where
  system : field.get "system" = some content
  history : history field = some messages
  absent : message.get "system" = none
  leading : ∃ first, SessionFingerprint.history message = some (first :: messages) ∧
    isSystem first = true ∧ (first.get "content").getD .null = content

theorem Continued.fingerprint {body longer : Json} (h : Continued body longer) :
    conversationFingerprint digest render longer = conversationFingerprint digest render body := by
  obtain ⟨messages, more, hbody, hlonger, hopening⟩ := h.history
  rw [conversationFingerprint_eq hbody, conversationFingerprint_eq hlonger, hopening, h.system]
  cases hfirst : opening messages with
  | none => rfl
  | some first => rw [leadingSystem_append (by rw [hfirst, Option.isSome_some])]

theorem SameSystem.fingerprint_field {field message content : Json} {messages : List Json}
    (h : SameSystem field message content messages) :
    conversationFingerprint digest render field = (opening messages).map fun first ↦
      digest (hashedText render (cappedText render content) first) := by
  rw [conversationFingerprint_eq h.history, h.system]
  rfl

theorem SameSystem.fingerprint_message {field message content : Json} {messages : List Json}
    (h : SameSystem field message content messages) :
    conversationFingerprint digest render message = (opening messages).map fun first ↦
      digest (hashedText render
        ((leadingSystem render messages).getD (cappedText render content)) first) := by
  obtain ⟨first, hhistory, hsystem, hcontent⟩ := h.leading
  have hopening : opening (first :: messages) = opening messages := by
    rw [opening, List.find?_cons, hsystem]
    rfl
  have hleading : leadingSystem render (first :: messages) =
      some ((leadingSystem render messages).getD (cappedText render content)) := by
    rw [leadingSystem, List.takeWhile_cons_of_pos hsystem, leadingSystem, List.getLast?_cons]
    cases (messages.takeWhile isSystem).getLast? with
    | none => exact congrArg some (congrArg (cappedText render) hcontent)
    | some other => rfl
  rw [conversationFingerprint_eq hhistory, hopening, hleading, h.absent]
  rfl

/-- A conversation that goes on keeps its fingerprint. The two forms of a system text have one
fingerprint unless a second system message follows, which counts in the history alone. -/
theorem fingerprint_stable_iff {body longer field message content : Json} {messages : List Json}
    (happended : Continued body longer) (hmoved : SameSystem field message content messages) :
    conversationFingerprint digest render longer = conversationFingerprint digest render body ∧
    (conversationFingerprint digest render field = conversationFingerprint digest render message ↔
      ∀ first ∈ opening messages, ∀ other ∈ leadingSystem render messages,
        other = cappedText render content ∨
          digest (hashedText render other first) =
            digest (hashedText render (cappedText render content) first)) := by
  refine ⟨happended.fingerprint, ?_⟩
  rw [hmoved.fingerprint_field, hmoved.fingerprint_message]
  cases opening messages with
  | none => simp
  | some first =>
    cases leadingSystem render messages with
    | none => simp
    | some other =>
      simp only [Option.map_some, Option.getD_some, Option.some.injEq, Option.mem_some_iff,
        forall_eq']
      constructor
      · intro h
        exact Or.inr h.symm
      · intro h
        rcases h with rfl | h
        · rfl
        · exact h.symm

end Forms

def said (role content : String) : Json := .obj [("content", .str content), ("role", .str role)]

def twoSystems : List Json := [said "system" "be brief", said "user" "q1"]

def systemAsField : Json :=
  .obj [("messages", .arr twoSystems), ("system", .str "you are a bot")]

def systemAsMessage : Json :=
  .obj [("messages", .arr (said "system" "you are a bot" :: twoSystems))]

def nextTurn : Json :=
  .obj [("messages", .arr (twoSystems ++ [said "assistant" "a1", said "user" "q2"])),
    ("system", .str "you are a bot")]

theorem continued_nextTurn : Continued systemAsField nextTurn :=
  ⟨⟨twoSystems, [said "assistant" "a1", said "user" "q2"], rfl, rfl, rfl⟩, rfl⟩

theorem sameSystem_two :
    SameSystem systemAsField systemAsMessage (.str "you are a bot") twoSystems :=
  ⟨rfl, rfl, rfl, said "system" "you are a bot", rfl, rfl, rfl⟩

theorem fingerprint_stable_iff_two :
    conversationFingerprint id (fun _ ↦ "") nextTurn =
        conversationFingerprint id (fun _ ↦ "") systemAsField ∧
    (conversationFingerprint id (fun _ ↦ "") systemAsField =
        conversationFingerprint id (fun _ ↦ "") systemAsMessage ↔
      ∀ first ∈ opening twoSystems, ∀ other ∈ leadingSystem (fun _ ↦ "") twoSystems,
        other = cappedText (fun _ ↦ "") (.str "you are a bot") ∨
          id (hashedText (fun _ ↦ "") other first) =
            id (hashedText (fun _ ↦ "") (cappedText (fun _ ↦ "") (.str "you are a bot")) first)) :=
  fingerprint_stable_iff continued_nextTurn sameSystem_two

/-- The same system text gives two fingerprints: the field is hashed in one form, the message
behind it in the other. -/
theorem fingerprint_of_two_systems :
    conversationFingerprint id (fun _ ↦ "") systemAsField =
        some "you are a bot\x1fuser\x1eq1" ∧
    conversationFingerprint id (fun _ ↦ "") systemAsMessage = some "be brief\x1fuser\x1eq1" ∧
    ¬∀ (digest : String → String) (render : Json → String) (field message content : Json)
      (messages : List Json), SameSystem field message content messages →
        conversationFingerprint digest render field =
          conversationFingerprint digest render message := by
  have hfield : conversationFingerprint id (fun _ ↦ "") systemAsField =
      some "you are a bot\x1fuser\x1eq1" := by decide +kernel
  have hmessage : conversationFingerprint id (fun _ ↦ "") systemAsMessage =
      some "be brief\x1fuser\x1eq1" := by decide +kernel
  refine ⟨hfield, hmessage, fun h ↦ ?_⟩
  have heq := h id (fun _ ↦ "") systemAsField systemAsMessage _ _ sameSystem_two
  rw [hfield, hmessage] at heq
  exact absurd heq (by decide)

end QueQiao.SessionFingerprint
