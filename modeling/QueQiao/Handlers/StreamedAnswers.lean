import QueQiao.Db.Extract
import QueQiao.Handlers.ChatRecord

namespace QueQiao.StreamLoggers

open StreamHandler Json Extract
open Lib.Transition (foldl_seen)

def deltasOf (chunks : List Json) : List Json :=
  (chunks.filterMap firstChoice).filterMap (·.get "delta")

def said (key : String) (values : List Json) : String :=
  String.join (values.filterMap (textOf · key))

def partIndices (parts : List Json) : List ℕ :=
  (parts.filterMap (count · "index")).dedup.mergeSort (· ≤ ·)

/-- The name that the last part with one gives to the call of an index. -/
def nameOf (parts : List Json) (i : ℕ) : Option String :=
  ((parts.filter fun tc ↦ count tc "index" = some i).filterMap functionName).getLast?

def namesOf (parts : List Json) : List String := (partIndices parts).filterMap (nameOf parts)

def messageTexts : List String := ["content", "reasoning", "reasoning_content"]

/-- The message of a choice says at once what the deltas say one after another. -/
structure WholeMessage (chunks : List Json) (message : Json) : Prop where
  texts : ∀ key ∈ messageTexts, (textOf message key).getD "" = said key (deltasOf chunks)
  names : callNames message = namesOf (toolCallParts chunks)

/-- A body that is not streamed, for what a stream says. The field of the other kind of request
is that of the chunk that becomes the response. -/
structure Whole (isChat : Bool) (chunks : List Json) (body : Json) : Prop where
  finishReason :
    (firstChoice body).bind (textOf · "finish_reason") = (finishReasons chunks).getLast?
  message : isChat = true → ∃ message,
    (firstChoice body).bind (·.get "message") = some message ∧ WholeMessage chunks message
  text : isChat = true → (firstChoice body).bind (·.get "text") =
    (firstChoice (closing chunks)).bind (·.get "text")
  completion : isChat = false → ∃ text, (firstChoice body).bind (textOf · "text") = some text ∧
    text = said "text" (chunks.filterMap firstChoice)
  noMessage : isChat = false → (firstChoice body).bind (·.get "message") =
    (firstChoice (closing chunks)).bind (·.get "message")
  usage : usageTokens (body.get "usage") = usageTokens (chunkUsages chunks).getLast?

section Append

variable {key : String} {values : List Json}

theorem said_concat (key : String) (values : List Json) (v : Json) :
    said key (values ++ [v]) = said key values ++ (textOf v key).getD "" := by
  rw [said, List.filterMap_append]
  cases h : textOf v key with
  | none => simp [said, h]
  | some s => simp [said, h, String.join]

theorem deltasOf_concat (chunks : List Json) (chunk : Json) :
    deltasOf (chunks ++ [chunk]) =
      deltasOf chunks ++ ((firstChoice chunk).bind (·.get "delta")).toList := by
  rw [deltasOf, firstChoices_concat, List.filterMap_append, ← deltasOf]
  cases firstChoice chunk with
  | none => rfl
  | some choice => cases h : choice.get "delta" <;> simp [h]

theorem said_deltas_concat (key : String) (chunks : List Json) (chunk : Json) :
    said key (deltasOf (chunks ++ [chunk])) = said key (deltasOf chunks) ++
      (((firstChoice chunk).bind (·.get "delta")).bind (textOf · key)).getD "" := by
  rw [deltasOf_concat]
  cases (firstChoice chunk).bind (·.get "delta") with
  | none => simp
  | some delta => exact said_concat key _ delta

theorem toolCallParts_concat (chunks : List Json) (chunk : Json) :
    toolCallParts (chunks ++ [chunk]) = toolCallParts chunks ++
      (((firstChoice chunk).bind (·.get "delta")).map toolCallsOf).getD [] := by
  rw [toolCallParts, ← deltasOf, deltasOf_concat, List.flatMap_append, deltasOf, ← toolCallParts]
  cases (firstChoice chunk).bind (·.get "delta") <;> simp

theorem nameOf_concat (parts : List Json) (tc : Json) (i : ℕ) :
    nameOf (parts ++ [tc]) i =
      if count tc "index" = some i then (functionName tc).or (nameOf parts i)
      else nameOf parts i := by
  rw [nameOf, List.filter_append, List.filterMap_append]
  split
  · rename_i h
    have hone : [tc].filter (fun tc ↦ count tc "index" = some i) = [tc] := by simp [h]
    rw [hone, nameOf]
    cases hname : functionName tc with
    | none => simp [hname]
    | some name => simp [hname]
  · rename_i h
    have hnone : [tc].filter (fun tc ↦ count tc "index" = some i) = [] := by simp [h]
    rw [hnone, List.filterMap_nil, List.append_nil, nameOf]

end Append

def callName (calls : List ToolCallAccumulator) (i : ℕ) : Option String :=
  (calls.find? (·.index = i)).bind (·.name)

theorem callName_updateToolCall (acc : StreamAccumulator) (tc : Json) (i : ℕ) :
    callName (acc.updateToolCall tc).toolCalls i =
      if count tc "index" = some i then (functionName tc).or (callName acc.toolCalls i)
      else callName acc.toolCalls i := by
  rw [StreamAccumulator.updateToolCall]
  cases hindex : count tc "index" with
  | none => rfl
  | some j =>
    dsimp only
    have hcall : ((acc.toolCalls.find? (·.index = j)).getD { index := j }).index = j := by
      cases hfind : acc.toolCalls.find? (·.index = j) with
      | none => rfl
      | some call => simpa using List.find?_some hfind
    by_cases hij : i = j
    · subst hij
      rw [if_pos rfl, callName,
        List.find?_cons_of_pos (by simp [ToolCallAccumulator.update, hcall]), Option.bind_some,
        callName]
      have hname : ∀ call : ToolCallAccumulator, (call.update tc).name =
          (functionName tc).or call.name := fun _ ↦ rfl
      rw [hname]
      cases acc.toolCalls.find? (·.index = i) <;> rfl
    · rw [if_neg (fun h ↦ hij (Option.some.inj h).symm), callName,
        List.find?_cons_of_neg (by simp [ToolCallAccumulator.update, hcall, Ne.symm hij]), callName]
      rw [List.find?_filter]
      congr 2
      funext call
      by_cases hcall : call.index = i
      · simp [hcall, hij]
      · simp [hcall]

theorem callName_foldl {parts : List Json} {acc : StreamAccumulator}
    (h : ∀ i, callName acc.toolCalls i = nameOf parts i) (tcs : List Json) (i : ℕ) :
    callName (tcs.foldl StreamAccumulator.updateToolCall acc).toolCalls i =
      nameOf (parts ++ tcs) i := by
  refine foldl_seen (P := fun parts (acc : StreamAccumulator) ↦
    ∀ i, callName acc.toolCalls i = nameOf parts i) (fun parts acc tc h i ↦ ?_) h tcs i
  rw [callName_updateToolCall, nameOf_concat, h]

theorem texts_foldl (tcs : List Json) (acc : StreamAccumulator) :
    let acc' := tcs.foldl StreamAccumulator.updateToolCall acc
    acc'.content = acc.content ∧ acc'.reasoning = acc.reasoning ∧
      acc'.reasoningContent = acc.reasoningContent := by
  induction tcs generalizing acc with
  | nil => exact ⟨rfl, rfl, rfl⟩
  | cons tc tcs ih =>
    obtain ⟨hcontent, hreasoning, hreasoningContent⟩ := ih (acc.updateToolCall tc)
    have hsame : (acc.updateToolCall tc).content = acc.content ∧
        (acc.updateToolCall tc).reasoning = acc.reasoning ∧
        (acc.updateToolCall tc).reasoningContent = acc.reasoningContent := by
      rw [StreamAccumulator.updateToolCall]
      cases count tc "index" <;> exact ⟨rfl, rfl, rfl⟩
    exact ⟨hcontent.trans hsame.1, hreasoning.trans hsame.2.1, hreasoningContent.trans hsame.2.2⟩

/-- The texts and the names of the message that an accumulator stands for. -/
structure Told (chunks : List Json) (acc : StreamAccumulator) : Prop where
  content : acc.content = said "content" (deltasOf chunks)
  reasoning : acc.reasoning = said "reasoning" (deltasOf chunks)
  reasoningContent : acc.reasoningContent = said "reasoning_content" (deltasOf chunks)
  names : ∀ i, callName acc.toolCalls i = nameOf (toolCallParts chunks) i

theorem Told.update {seen : List Json} {acc : StreamAccumulator} (h : Told seen acc)
    {chunk choice delta : Json} (hchoice : firstChoice chunk = some choice)
    (hdelta : choice.get "delta" = some delta) : Told (seen ++ [chunk]) (acc.update delta) := by
  have hsaid (key : String) : said key (deltasOf (seen ++ [chunk])) =
      said key (deltasOf seen) ++ (textOf delta key).getD "" := by
    rw [said_deltas_concat, hchoice, Option.bind_some, hdelta, Option.bind_some]
  have hparts : toolCallParts (seen ++ [chunk]) = toolCallParts seen ++ toolCallsOf delta := by
    rw [toolCallParts_concat, hchoice, Option.bind_some, hdelta]
    rfl
  let acc' : StreamAccumulator := { acc with
    role := (textOf delta "role").getD acc.role
    content := acc.content ++ (textOf delta "content").getD ""
    reasoning := acc.reasoning ++ (textOf delta "reasoning").getD ""
    reasoningContent := acc.reasoningContent ++ (textOf delta "reasoning_content").getD "" }
  have hfold : acc.update delta =
      (toolCallsOf delta).foldl StreamAccumulator.updateToolCall acc' := by
    rw [StreamAccumulator.update, toolCallsOf]
    cases delta.get "tool_calls" with
    | none => rfl
    | some v => cases v <;> rfl
  obtain ⟨hcontent, hreasoning, hreasoningContent⟩ := texts_foldl (toolCallsOf delta) acc'
  rw [hfold]
  refine ⟨?_, ?_, ?_, fun i ↦ ?_⟩
  · rw [hcontent, hsaid, ← h.content]
  · rw [hreasoning, hsaid, ← h.reasoning]
  · rw [hreasoningContent, hsaid, ← h.reasoningContent]
  · rw [hparts]
    exact @callName_foldl (toolCallParts seen) acc' h.names (toolCallsOf delta) i

theorem Told.silent {seen : List Json} {acc : StreamAccumulator} (h : Told seen acc) {chunk : Json}
    (hdelta : (firstChoice chunk).bind (·.get "delta") = none) : Told (seen ++ [chunk]) acc := by
  have hdeltas : deltasOf (seen ++ [chunk]) = deltasOf seen := by
    rw [deltasOf_concat, hdelta, Option.toList_none, List.append_nil]
  have hparts : toolCallParts (seen ++ [chunk]) = toolCallParts seen := by
    rw [toolCallParts_concat, hdelta, Option.map_none, Option.getD_none, List.append_nil]
  exact ⟨hdeltas ▸ h.content, hdeltas ▸ h.reasoning, hdeltas ▸ h.reasoningContent, hparts ▸ h.names⟩

structure Gathered (isChat : Bool) (chunks : List Json) (s : ChatContent) : Prop where
  chat : isChat = true → Told chunks s.accumulator
  completion : isChat = false →
    s.accumulator.content = said "text" (chunks.filterMap firstChoice)

theorem Gathered.choice {isChat : Bool} {seen : List Json} {s : ChatContent}
    (h : Gathered isChat seen s) {chunk choice : Json} (hchoice : firstChoice chunk = some choice) :
    Gathered isChat (seen ++ [chunk]) (s.receiveChoice isChat choice) where
  chat hchat := by
    rw [ChatContent.receiveChoice, if_pos hchat]
    cases hdelta : choice.get "delta" with
    | none => exact (h.chat hchat).silent (by rw [hchoice, Option.bind_some, hdelta])
    | some delta => exact (h.chat hchat).update hchoice hdelta
  completion hchat := by
    rw [ChatContent.receiveChoice, if_neg (by simp [hchat]), firstChoices_concat, hchoice,
      Option.toList_some, said_concat, ← h.completion hchat]

theorem Gathered.silent {isChat : Bool} {seen : List Json} {s : ChatContent}
    (h : Gathered isChat seen s) {chunk : Json} (hchoice : firstChoice chunk = none) :
    Gathered isChat (seen ++ [chunk]) s where
  chat hchat := (h.chat hchat).silent (by rw [hchoice, Option.bind_none])
  completion hchat := by
    rw [firstChoices_concat, hchoice, Option.toList_none, List.append_nil, ← h.completion hchat]

variable (serdeFromStr : String → Option Json)

section Response

variable {isChat : Bool} {content : ChatContent} {chunk chunk' choice : Json} {key : String}

end Response

section Message

variable {chunks : List Json} {acc : StreamAccumulator}

theorem map_mergeSort_index {α : Type*} {index : α → ℕ} {rows : List α} {indices : List ℕ}
    (hnodup : (rows.map index).Nodup) (hmem : ∀ i, i ∈ rows.map index ↔ i ∈ indices) :
    (rows.mergeSort fun a b ↦ index a ≤ index b).map index = indices.dedup.mergeSort (· ≤ ·) := by
  have hsorted := @List.pairwise_mergeSort _ (fun a b : α ↦ decide (index a ≤ index b))
    (by simp; omega) (by simp; omega) rows
  have hsorted' := @List.pairwise_mergeSort _ (fun a b : ℕ ↦ decide (a ≤ b))
    (by simp; omega) (by simp; omega) indices.dedup
  refine List.Perm.eq_of_pairwise (fun a b _ _ hab hba ↦ Nat.le_antisymm hab hba)
    (List.pairwise_map.mpr (hsorted.imp of_decide_eq_true)) (hsorted'.imp of_decide_eq_true) ?_
  have hperm : (rows.map index).Perm indices.dedup :=
    (List.perm_ext_iff_of_nodup hnodup (List.nodup_dedup _)).mpr fun i ↦ by
      rw [hmem, List.mem_dedup]
  exact ((List.mergeSort_perm rows _).map index).trans
    (hperm.trans (List.mergeSort_perm indices.dedup _).symm)

end Message

section Agreement

variable {isChat : Bool} {chunks : List Json} {content : ChatContent} {response body body' : Json}

end Agreement

end QueQiao.StreamLoggers
