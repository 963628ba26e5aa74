import QueQiao.Handlers.AuditOnce

namespace QueQiao.StreamLoggers

open StreamHandler Json
open Lib.Transition (foldl_seen)

def firstChoice (chunk : Json) : Option Json :=
  match chunk.get "choices" with
  | some (.arr (choice :: _)) => some choice
  | _ => none

def finishReasons (chunks : List Json) : List String :=
  (chunks.filterMap firstChoice).filterMap (textOf · "finish_reason")

def toolCallsOf (delta : Json) : List Json :=
  match delta.get "tool_calls" with
  | some (.arr tcs) => tcs
  | _ => []

def toolCallParts (chunks : List Json) : List Json :=
  ((chunks.filterMap firstChoice).filterMap (·.get "delta")).flatMap toolCallsOf

def partArguments (i : ℕ) (tc : Json) : String :=
  if count tc "index" = some i then
    ((tc.get "function").bind (textOf · "arguments")).getD ""
  else ""

def argumentsOf (parts : List Json) (i : ℕ) : String := String.join (parts.map (partArguments i))

def hasCounts (usage : Json) : Bool :=
  ["prompt_tokens", "completion_tokens", "total_tokens", "input_tokens", "output_tokens"].any
    fun key ↦ (count usage key).isSome

/-- The last usage of a stream has token counts, or none has. -/
def UsageKept (usages : List Json) : Prop :=
  ∀ last, usages.getLast? = some last → hasCounts last = false →
    ∀ usage ∈ usages, hasCounts usage = false

/-- One tool call for each index, in the order of the indices, each with the arguments of all its
parts. -/
structure Calls (parts : List Json) (calls : List ToolCallAccumulator) : Prop where
  nodup : (calls.map (·.index)).Nodup
  mem_iff : ∀ i, i ∈ calls.map (·.index) ↔ ∃ tc ∈ parts, count tc "index" = some i
  arguments : ∀ call ∈ calls, call.arguments = argumentsOf parts call.index

/-- What the response of an audit record says of a stream. -/
structure Recorded (isChat : Bool) (chunks : List Json) (response : Json) : Prop where
  usage : (response.get "usage").filter hasCounts =
    ((chunkUsages chunks).filter hasCounts).getLast?
  finishReason : (firstChoice response).bind (textOf · "finish_reason") =
    (finishReasons chunks).getLast?
  toolCalls : isChat = true → ∃ calls, Calls (toolCallParts chunks) calls ∧
    calls.Pairwise (·.index < ·.index) ∧
    ((firstChoice response).bind (·.get "message")).bind (·.get "tool_calls") =
      if calls = [] then none else some (.arr (calls.map ToolCallAccumulator.toJson))

theorem argumentsOf_concat (parts : List Json) (tc : Json) (i : ℕ) :
    argumentsOf (parts ++ [tc]) i = argumentsOf parts i ++ partArguments i tc := by
  simp [argumentsOf, String.join]

theorem argumentsOf_of_absent {parts : List Json} {i : ℕ}
    (h : ∀ tc ∈ parts, count tc "index" ≠ some i) : argumentsOf parts i = "" := by
  induction parts using List.reverseRecOn with
  | nil => rfl
  | append_singleton parts tc ih =>
    rw [argumentsOf_concat, ih fun tc' htc ↦ h tc' (List.mem_append_left _ htc), partArguments,
      if_neg (h tc (List.mem_append_right _ (List.mem_singleton_self tc)))]
    rfl

theorem calls_nil : Calls [] [] := ⟨List.nodup_nil, by simp, by simp⟩

theorem Calls.skip {parts : List Json} {calls : List ToolCallAccumulator} (h : Calls parts calls)
    {tc : Json} (htc : count tc "index" = none) : Calls (parts ++ [tc]) calls where
  nodup := h.nodup
  mem_iff i := by
    rw [h.mem_iff]
    simp [htc]
  arguments call hcall := by
    rw [argumentsOf_concat, partArguments, htc, if_neg (by simp), String.append_empty]
    exact h.arguments call hcall

theorem Calls.update {parts : List Json} {calls : List ToolCallAccumulator} (h : Calls parts calls)
    {tc : Json} {i : ℕ} (htc : count tc "index" = some i) :
    Calls (parts ++ [tc]) (((calls.find? (·.index = i)).getD { index := i }).update tc ::
      calls.filter (·.index ≠ i)) := by
  have hfound : ((calls.find? (·.index = i)).getD { index := i }).index = i ∧
      ((calls.find? (·.index = i)).getD { index := i }).arguments = argumentsOf parts i := by
    cases hfind : calls.find? (·.index = i) with
    | some call =>
      have hindex : call.index = i := by simpa using List.find?_some hfind
      exact ⟨hindex, hindex ▸ h.arguments call (List.mem_of_find?_eq_some hfind)⟩
    | none =>
      have habsent : i ∉ calls.map (·.index) := by
        simpa using List.find?_eq_none.mp hfind
      refine ⟨rfl, (argumentsOf_of_absent fun tc' htc' heq ↦ ?_).symm⟩
      exact habsent ((h.mem_iff i).mpr ⟨tc', htc', heq⟩)
  obtain ⟨hindex, harguments⟩ := hfound
  refine ⟨?_, fun j ↦ ?_, fun call hcall ↦ ?_⟩
  · rw [List.map_cons, List.nodup_cons]
    refine ⟨?_, h.nodup.sublist (List.Sublist.map _ List.filter_sublist)⟩
    simp [ToolCallAccumulator.update, hindex]
  · simp only [List.map_cons, List.mem_cons, ToolCallAccumulator.update, hindex]
    have hfilter : j ∈ (calls.filter (·.index ≠ i)).map (·.index) ↔
        j ∈ calls.map (·.index) ∧ j ≠ i := by
      simp only [List.mem_map, List.mem_filter, decide_eq_true_eq]
      constructor
      · rintro ⟨call, ⟨hcall, hne⟩, rfl⟩
        exact ⟨⟨call, hcall, rfl⟩, hne⟩
      · rintro ⟨⟨call, hcall, rfl⟩, hne⟩
        exact ⟨call, ⟨hcall, hne⟩, rfl⟩
    rw [hfilter, h.mem_iff]
    constructor
    · rintro (rfl | ⟨⟨tc', htc', hj⟩, -⟩)
      · exact ⟨tc, List.mem_append_right _ (List.mem_singleton_self tc), htc⟩
      · exact ⟨tc', List.mem_append_left _ htc', hj⟩
    · rintro ⟨tc', htc', hj⟩
      rcases eq_or_ne j i with rfl | hne
      · exact .inl rfl
      · rcases List.mem_append.mp htc' with hmem | hlast
        · exact .inr ⟨⟨tc', hmem, hj⟩, hne⟩
        · rw [List.mem_singleton.mp hlast, htc] at hj
          exact absurd (Option.some.inj hj).symm hne
  · rcases List.mem_cons.mp hcall with rfl | hcall
    · rw [argumentsOf_concat]
      simp only [ToolCallAccumulator.update, hindex, harguments, partArguments, htc, if_true]
    · obtain ⟨hmem, hne⟩ := List.mem_filter.mp hcall
      have hne : ¬some i = some call.index := fun heq ↦ by
        simp [Option.some.inj heq] at hne
      rw [argumentsOf_concat, partArguments, htc, if_neg hne, String.append_empty]
      exact h.arguments call hmem

theorem Calls.foldl {parts : List Json} {acc : StreamAccumulator} (h : Calls parts acc.toolCalls)
    (tcs : List Json) :
    Calls (parts ++ tcs) (tcs.foldl StreamAccumulator.updateToolCall acc).toolCalls := by
  refine foldl_seen (P := fun parts (acc : StreamAccumulator) ↦ Calls parts acc.toolCalls) ?_ h tcs
  intro parts acc tc h
  rw [StreamAccumulator.updateToolCall]
  cases htc : count tc "index" with
  | none => exact h.skip htc
  | some i => exact h.update htc

theorem Calls.delta {parts : List Json} {acc : StreamAccumulator} (h : Calls parts acc.toolCalls)
    (delta : Json) : Calls (parts ++ toolCallsOf delta) (acc.update delta).toolCalls := by
  rw [StreamAccumulator.update, toolCallsOf]
  cases delta.get "tool_calls" with
  | none => simpa using h
  | some v =>
    cases v with
    | arr tcs =>
      have hfold : ∀ acc' : StreamAccumulator, acc'.toolCalls = acc.toolCalls →
          Calls (parts ++ tcs) (tcs.foldl StreamAccumulator.updateToolCall acc').toolCalls :=
        fun acc' heq ↦ Calls.foldl (heq ▸ h) tcs
      exact hfold _ rfl
    | null | bool | num | str | obj => simpa using h

variable (serdeFromStr : String → Option Json)

structure Collected (isChat : Bool) (chunks : List Json) (s : ChatContent) : Prop where
  finishReason : s.capturedFinishReason = (finishReasons chunks).getLast?
  toolCalls : isChat = true → Calls (toolCallParts chunks) s.accumulator.toolCalls

theorem collected_nil (isChat : Bool) : Collected isChat [] {} := ⟨rfl, fun _ ↦ calls_nil⟩

theorem firstChoices_concat (chunks : List Json) (chunk : Json) :
    (chunks ++ [chunk]).filterMap firstChoice =
      chunks.filterMap firstChoice ++ (firstChoice chunk).toList := by
  rw [List.filterMap_append]
  cases h : firstChoice chunk <;> simp [h]

theorem Collected.choice {isChat : Bool} {seen : List Json} {s : ChatContent}
    (h : Collected isChat seen s) {chunk choice : Json} (hchoice : firstChoice chunk = some choice) :
    Collected isChat (seen ++ [chunk]) (s.receiveChoice isChat choice) where
  finishReason := by
    rw [ChatContent.receiveChoice, finishReasons, firstChoices_concat, hchoice,
      List.filterMap_append, h.finishReason, finishReasons]
    cases hr : textOf choice "finish_reason" with
    | none => simp [hr]
    | some reason => simp [hr]
  toolCalls hchat := by
    rw [toolCallParts, firstChoices_concat, hchoice, List.filterMap_append, List.flatMap_append,
      ChatContent.receiveChoice, if_pos hchat, ← toolCallParts]
    cases hdelta : choice.get "delta" with
    | none => simpa [hdelta] using h.toolCalls hchat
    | some delta => simpa [hdelta] using (h.toolCalls hchat).delta delta

theorem Collected.silent {isChat : Bool} {seen : List Json} {s : ChatContent}
    (h : Collected isChat seen s) {chunk : Json} (hchoice : firstChoice chunk = none) :
    Collected isChat (seen ++ [chunk]) s where
  finishReason := by
    rw [finishReasons, firstChoices_concat, hchoice, Option.toList_none, List.append_nil]
    exact h.finishReason
  toolCalls hchat := by
    rw [toolCallParts, firstChoices_concat, hchoice, Option.toList_none, List.append_nil]
    exact h.toolCalls hchat

theorem receive_of_chunk (isChat : Bool) (s : ChatContent) {chunkStr : String} {chunk : Json}
    (hsentinel : chunkStr ≠ streamUpstreamErrorSentinel)
    (hchunk : serdeFromStr chunkStr = some chunk) :
    s.receive serdeFromStr isChat chunkStr =
      ((firstChoice chunk).map (s.receiveChoice isChat)).getD s := by
  rw [ChatContent.receive, if_neg hsentinel, hchunk, firstChoice]
  dsimp only
  cases chunk.get "choices" with
  | none => rfl
  | some v =>
    cases v with
    | arr items => cases items <;> rfl
    | null | bool | num | str | obj => rfl

theorem collected_foldl (isChat : Bool) (received : List String) :
    Collected isChat (chunks serdeFromStr received)
      (received.foldl (ChatContent.receive serdeFromStr isChat) {}) := by
  refine foldl_chunks serdeFromStr (P := Collected isChat) (fun seen s chunkStr h hskip ↦ ?_)
    (fun seen s chunkStr chunk h hsentinel hchunk ↦ ?_) (collected_nil isChat) received
  · rw [ChatContent.receive]
    split
    · exact h
    · rename_i hsentinel
      rw [hskip.resolve_left hsentinel]
      exact h
  · rw [receive_of_chunk serdeFromStr isChat s hsentinel hchunk]
    cases hchoice : firstChoice chunk with
    | none => exact h.silent hchoice
    | some choice => exact h.choice hchoice

theorem get_obj (fields : Fields) (key : String) : Json.get (.obj fields) key = fields.get key :=
  rfl

theorem get_indexMut_ne {key k : String} (hk : k ≠ key) {f : Json → Option Json} {v v' : Json}
    (h : indexMut key f v = some v') : v'.get k = v.get k := by
  cases v with
  | null =>
    obtain ⟨u, -, rfl⟩ := Option.map_eq_some_iff.mp h
    simp [Json.get, List.lookup_cons, beq_eq_false_iff_ne.mpr hk]
  | obj fields =>
    obtain ⟨u, -, rfl⟩ := Option.map_eq_some_iff.mp h
    rw [get_obj, Fields.get_insert_ne hk, get_obj]
  | bool | num | str | arr => cases h

theorem get_indexMut_self {key : String} {f : Json → Option Json} {v v' : Json}
    (h : indexMut key f v = some v') :
    ∃ u, f ((v.get key).getD .null) = some u ∧ v'.get key = some u := by
  cases v with
  | null =>
    obtain ⟨u, hu, rfl⟩ := Option.map_eq_some_iff.mp h
    exact ⟨u, hu, by simp [Json.get]⟩
  | obj fields =>
    obtain ⟨u, hu, rfl⟩ := Option.map_eq_some_iff.mp h
    exact ⟨u, hu, Fields.get_insert_self _ _ _⟩
  | bool | num | str | arr => cases h

theorem obj_of_indexMut {key : String} {f : Json → Option Json} {v v' : Json}
    (h : indexMut key f v = some v') : ∃ fields, v' = .obj fields := by
  cases v with
  | null | obj =>
    obtain ⟨u, -, rfl⟩ := Option.map_eq_some_iff.mp h
    exact ⟨_, rfl⟩
  | bool | num | str | arr => cases h

theorem firstChoice_eq_some {chunk choice : Json} (h : firstChoice chunk = some choice) :
    ∃ items, chunk.get "choices" = some (.arr (choice :: items)) := by
  rw [firstChoice] at h
  split at h
  · rename_i c items hget
    obtain rfl := Option.some.inj h
    exact ⟨items, hget⟩
  · cases h

theorem onFirstChoice_spec {f : Json → Option Json} {chunk chunk' choice : Json}
    (hchoice : firstChoice chunk = some choice) (h : onFirstChoice f chunk = some chunk') :
    (∀ k, k ≠ "choices" → chunk'.get k = chunk.get k) ∧
      ∃ choice', f choice = some choice' ∧ firstChoice chunk' = some choice' := by
  obtain ⟨items, hget⟩ := firstChoice_eq_some hchoice
  refine ⟨fun k hk ↦ get_indexMut_ne hk h, ?_⟩
  obtain ⟨u, hu, hself⟩ := get_indexMut_self h
  rw [hget] at hu
  obtain ⟨choice', hf, rfl⟩ := Option.map_eq_some_iff.mp hu
  exact ⟨choice', hf, by rw [firstChoice, hself]⟩

theorem isArrayWithItems_firstChoice (chunk : Json) :
    isArrayWithItems (chunk.get "choices") = (firstChoice chunk).isSome := by
  rw [firstChoice]
  cases chunk.get "choices" with
  | none => rfl
  | some v =>
    cases v with
    | arr items => cases items <;> rfl
    | null | bool | num | str | obj => rfl

theorem withChoices_spec {chunk chunk' : Json} (h : withChoices chunk = some chunk') :
    chunk'.get "usage" = chunk.get "usage" ∧
      ∃ choice, firstChoice chunk' = some choice ∧
        textOf choice "finish_reason" = (firstChoice chunk).bind (textOf · "finish_reason") := by
  rw [withChoices, isArrayWithItems_firstChoice] at h
  cases hchoice : firstChoice chunk with
  | some choice =>
    rw [hchoice, Option.isSome_some, if_pos rfl] at h
    obtain rfl := Option.some.inj h
    exact ⟨rfl, choice, hchoice, rfl⟩
  | none =>
    rw [hchoice, Option.isSome_none, if_neg Bool.false_ne_true] at h
    refine ⟨get_indexMut_ne (by decide) h, .obj [("index", .num 0)], ?_, rfl⟩
    obtain ⟨u, hu, hself⟩ := get_indexMut_self h
    rw [firstChoice, hself, ← Option.some.inj hu]

theorem textOf_removeDelta (choice : Json) :
    (removeDelta choice).get "message" = choice.get "message" ∧
      textOf (removeDelta choice) "finish_reason" = textOf choice "finish_reason" := by
  cases choice with
  | obj fields =>
    have hget : ∀ k, k ≠ "delta" → Json.get (removeDelta (.obj fields)) k = Json.get (.obj fields) k :=
      fun k hk ↦ Fields.get_remove_ne hk fields
    exact ⟨hget _ (by decide), by rw [textOf, hget _ (by decide), textOf]⟩
  | null | bool | num | str | arr => exact ⟨rfl, rfl⟩

theorem injectContent_spec {isChat : Bool} {content : ChatContent} {chunk chunk' choice : Json}
    (hchoice : firstChoice chunk = some choice)
    (h : injectContent isChat content chunk = some chunk') :
    chunk'.get "usage" = chunk.get "usage" ∧
      ∃ fields, firstChoice chunk' = some (.obj fields) ∧
        textOf (.obj fields) "finish_reason" = textOf choice "finish_reason" ∧
        (isChat = true → Json.get (.obj fields) "message" = some content.accumulator.toMessageJson) := by
  rw [injectContent] at h
  split at h
  · obtain ⟨hother, choice', hf, hfirst⟩ := onFirstChoice_spec hchoice h
    obtain ⟨c, hc, rfl⟩ := Option.map_eq_some_iff.mp hf
    obtain ⟨u, hu, hmessage⟩ := get_indexMut_self hc
    obtain ⟨hm, hr⟩ := textOf_removeDelta c
    have hreason : textOf c "finish_reason" = textOf choice "finish_reason" := by
      rw [textOf, get_indexMut_ne (by decide) hc, textOf]
    obtain ⟨fields, rfl⟩ := obj_of_indexMut hc
    exact ⟨hother _ (by decide), _, hfirst, hr.trans hreason,
      fun _ ↦ hm.trans (hmessage.trans (congrArg some (Option.some.inj hu).symm))⟩
  · rename_i hchat
    obtain ⟨hother, choice', hf, hfirst⟩ := onFirstChoice_spec hchoice h
    have hreason : textOf choice' "finish_reason" = textOf choice "finish_reason" := by
      rw [textOf, get_indexMut_ne (by decide) hf, textOf]
    obtain ⟨fields, rfl⟩ := obj_of_indexMut hf
    exact ⟨hother _ (by decide), fields, hfirst, hreason, fun hchat' ↦ absurd hchat' hchat⟩

theorem injectUsage_spec {usage : Option Json} {chunk chunk' : Json}
    (h : injectUsage usage chunk = some chunk') :
    chunk'.get "usage" = usage.or (chunk.get "usage") ∧
      firstChoice chunk' = firstChoice chunk := by
  cases usage with
  | none =>
    obtain rfl := Option.some.inj h
    exact ⟨rfl, rfl⟩
  | some usage =>
    have h : indexMut "usage" (fun _ ↦ some usage) chunk = some chunk' := h
    obtain ⟨u, hu, hself⟩ := get_indexMut_self h
    refine ⟨by rw [hself, ← Option.some.inj hu]; rfl, ?_⟩
    rw [firstChoice, get_indexMut_ne (by decide) h, firstChoice]

/-- The finish reason goes into a choice that has a message or a text, so that it is an object. -/
theorem injectFinishReason_spec {reason : Option String} {chunk chunk' : Json}
    {fields : Fields} (hchoice : firstChoice chunk = some (.obj fields))
    (h : injectFinishReason reason chunk = some chunk') :
    chunk'.get "usage" = chunk.get "usage" ∧
      ∃ choice', firstChoice chunk' = some choice' ∧
        textOf choice' "finish_reason" = reason.or (textOf (.obj fields) "finish_reason") ∧
        choice'.get "message" = Json.get (.obj fields) "message" := by
  cases reason with
  | none =>
    obtain rfl := Option.some.inj h
    exact ⟨rfl, _, hchoice, rfl, rfl⟩
  | some reason =>
    obtain ⟨hother, choice', hf, hfirst⟩ := onFirstChoice_spec hchoice h
    obtain rfl := Option.some.inj hf
    refine ⟨hother _ (by decide), _, hfirst, ?_, ?_⟩
    · rw [textOf, insertFinishReason, get_obj, Fields.get_insert_self]
      rfl
    · rw [insertFinishReason, get_obj, Fields.get_insert_ne (by decide), get_obj]

theorem loggedResponse_spec {isChat : Bool} {s : ChatLog} {content : ChatContent} {response : Json}
    (h : loggedResponse isChat s content = some response) :
    response.get "usage" = s.capturedUsage.or (s.finalChunk.get "usage") ∧
      (firstChoice response).bind (textOf · "finish_reason") =
        content.capturedFinishReason.or
          ((firstChoice s.finalChunk).bind (textOf · "finish_reason")) ∧
      (isChat = true → (firstChoice response).bind (·.get "message") =
        some content.accumulator.toMessageJson) := by
  obtain ⟨chunk₁, h₁, h⟩ := Option.bind_eq_some_iff.mp h
  obtain ⟨chunk₂, h₂, h⟩ := Option.bind_eq_some_iff.mp h
  obtain ⟨chunk₃, h₃, h₄⟩ := Option.bind_eq_some_iff.mp h
  obtain ⟨husage₁, choice₁, hfirst₁, hreason₁⟩ := withChoices_spec h₁
  obtain ⟨husage₂, fields, hfirst₂, hreason₂, hmessage₂⟩ := injectContent_spec hfirst₁ h₂
  obtain ⟨husage₃, hfirst₃⟩ := injectUsage_spec h₃
  obtain ⟨husage₄, choice, hfirst, hreason₄, hmessage₄⟩ :=
    injectFinishReason_spec (hfirst₃.trans hfirst₂) h₄
  refine ⟨?_, ?_, fun hchat ↦ ?_⟩
  · rw [husage₄, husage₃, husage₂, husage₁]
  · rw [hfirst, Option.bind_some, hreason₄, hreason₂, hreason₁]
  · rw [hfirst, Option.bind_some, hmessage₄, hmessage₂ hchat]

theorem closing_mem_or (chunks : List Json) :
    closing chunks ∈ chunks ∨ chunks = [] := by
  rw [closing, ChatLog.finalChunk]
  cases hlast : chunks.getLast? with
  | none => exact .inr (List.getLast?_eq_none_iff.mp hlast)
  | some last =>
    have hmem : last ∈ chunks := List.mem_of_getLast? hlast
    cases hfirst : chunks.head? with
    | none => simp [List.head?_eq_none_iff.mp hfirst] at hmem
    | some first =>
      have hfirst : first ∈ chunks := List.mem_of_head? hfirst
      left
      dsimp only [Option.getD_some]
      split
      · exact hfirst
      · exact hmem

theorem filter_usage_closing {chunks : List Json} (h : chunkUsages chunks = []) :
    ((closing chunks).get "usage").filter hasCounts = none := by
  rcases closing_mem_or chunks with hmem | rfl
  · have hnone : (closing chunks).get "usage" = none :=
      List.filterMap_eq_nil_iff.mp h _ hmem
    rw [hnone]
    rfl
  · rfl

theorem finishReason_closing {chunks : List Json} (h : finishReasons chunks = []) :
    (firstChoice (closing chunks)).bind (textOf · "finish_reason") = none := by
  rcases closing_mem_or chunks with hmem | rfl
  · cases hchoice : firstChoice (closing chunks) with
    | none => rfl
    | some choice =>
      exact List.filterMap_eq_nil_iff.mp h choice (List.mem_filterMap.mpr ⟨_, hmem, hchoice⟩)
  · rfl

theorem get_toMessageJson (acc : StreamAccumulator) :
    acc.toMessageJson.get "tool_calls" =
      if acc.toolCalls = [] then none
      else some (.arr ((acc.toolCalls.mergeSort fun a b ↦ a.index ≤ b.index).map
        ToolCallAccumulator.toJson)) := by
  have htext : ∀ (key s : String) (fields : Fields), key ≠ "tool_calls" →
      Fields.get (if s = "" then fields else fields.insert key (.str s)) "tool_calls" =
        fields.get "tool_calls" := by
    intro key s fields hkey
    split
    · rfl
    · exact Fields.get_insert_ne hkey.symm _ _
  rw [StreamAccumulator.toMessageJson, get_obj]
  by_cases hempty : acc.toolCalls = []
  · rw [if_pos (List.isEmpty_iff.mpr hempty), if_pos hempty, htext _ _ _ (by decide),
      htext _ _ _ (by decide), htext _ _ _ (by decide)]
    rfl
  · rw [if_neg (by simpa using hempty), if_neg hempty, Fields.get_insert_self]

theorem Calls.sorted {parts : List Json} {calls : List ToolCallAccumulator}
    (h : Calls parts calls) :
    let sorted := calls.mergeSort fun a b ↦ a.index ≤ b.index
    Calls parts sorted ∧ sorted.Pairwise (·.index < ·.index) := by
  have hperm := List.mergeSort_perm calls fun a b ↦ decide (a.index ≤ b.index)
  have hsorted := @List.pairwise_mergeSort _ (fun a b : ToolCallAccumulator ↦
    decide (a.index ≤ b.index)) (by simp; omega) (by simp; omega) calls
  have hnodup := (hperm.map (·.index)).nodup_iff.mpr h.nodup
  refine ⟨⟨hnodup, fun i ↦ ((hperm.map (·.index)).mem_iff).trans (h.mem_iff i),
    fun call hcall ↦ h.arguments call (hperm.mem_iff.mp hcall)⟩, ?_⟩
  have hne := List.pairwise_map.mp hnodup
  refine (hsorted.and hne).imp fun h ↦ ?_
  exact lt_of_le_of_ne (by simpa using h.1) h.2

theorem usageKept_iff (usages : List Json) :
    usages.getLast?.filter hasCounts = (usages.filter hasCounts).getLast? ↔ UsageKept usages := by
  rcases List.eq_nil_or_concat usages with rfl | ⟨before, last, rfl⟩
  · simp [UsageKept]
  rw [List.concat_eq_append, UsageKept, List.getLast?_concat, List.filter_append]
  cases hlast : hasCounts last with
  | true => simp [hlast]
  | false =>
    have hnone : (some last).filter hasCounts = none := by simp [hlast]
    have hfilter : [last].filter hasCounts = [] := by simp [hlast]
    rw [hnone, hfilter, List.append_nil, eq_comm, List.getLast?_eq_none_iff,
      List.filter_eq_nil_iff]
    constructor
    · rintro h l - - usage husage
      rcases List.mem_append.mp husage with hbefore | hl
      · exact Bool.eq_false_iff.mpr (h usage hbefore)
      · rw [List.mem_singleton.mp hl, hlast]
    · intro h usage husage
      exact Bool.eq_false_iff.mp (h last rfl hlast usage (List.mem_append_left _ husage))

theorem recorded_usage {isChat : Bool} {chunks : List Json} {s : ChatLog} {content : ChatContent}
    {response : Json} (h : loggedResponse isChat s content = some response) (hs : Seen chunks s) :
    (response.get "usage").filter hasCounts = (chunkUsages chunks).getLast?.filter hasCounts := by
  have hclosing : s.finalChunk = closing chunks := by
    rw [ChatLog.finalChunk, hs.last, hs.first, closing, ChatLog.finalChunk]
  rw [(loggedResponse_spec h).1, hs.usage, hclosing]
  cases hlast : (chunkUsages chunks).getLast? with
  | some usage => rfl
  | none => exact filter_usage_closing (List.getLast?_eq_none_iff.mp hlast)

theorem recorded_finishReason {isChat : Bool} {chunks : List Json} {s : ChatLog}
    {content : ChatContent} {response : Json}
    (h : loggedResponse isChat s content = some response) (hs : Seen chunks s)
    (hcontent : Collected isChat chunks content) :
    (firstChoice response).bind (textOf · "finish_reason") = (finishReasons chunks).getLast? := by
  have hclosing : s.finalChunk = closing chunks := by
    rw [ChatLog.finalChunk, hs.last, hs.first, closing, ChatLog.finalChunk]
  rw [(loggedResponse_spec h).2.1, hcontent.finishReason, hclosing]
  cases hlast : (finishReasons chunks).getLast? with
  | some reason => rfl
  | none => exact finishReason_closing (List.getLast?_eq_none_iff.mp hlast)

theorem recorded_toolCalls {isChat : Bool} {chunks : List Json} {s : ChatLog}
    {content : ChatContent} {response : Json}
    (h : loggedResponse isChat s content = some response)
    (hcontent : Collected isChat chunks content) (hchat : isChat = true) :
    ∃ calls, Calls (toolCallParts chunks) calls ∧ calls.Pairwise (·.index < ·.index) ∧
      ((firstChoice response).bind (·.get "message")).bind (·.get "tool_calls") =
        if calls = [] then none else some (.arr (calls.map ToolCallAccumulator.toJson)) := by
  obtain ⟨hcalls, hsorted⟩ := (hcontent.toolCalls hchat).sorted
  refine ⟨_, hcalls, hsorted, ?_⟩
  rw [(loggedResponse_spec h).2.2 hchat, Option.bind_some, get_toMessageJson]
  have hnil : (content.accumulator.toolCalls.mergeSort fun a b ↦ a.index ≤ b.index) = [] ↔
      content.accumulator.toolCalls = [] := by
    rw [← List.length_eq_zero_iff, List.length_mergeSort, List.length_eq_zero_iff]
  simp only [hnil]

/-- The response of a record tells the stream's usage exactly if the last usage has counts, or
none has; the finish reason and the tool calls are always those of the stream. -/
theorem recorded_iff {args : LoggerArgs} {outcome : StreamOutcome} {received : List String}
    {record : AuditRecord} {response : Json}
    (h : streamLoggerAudit serdeFromStr args outcome received = some [(record, response)]) :
    Recorded args.isChat (chunks serdeFromStr received) response ↔
      UsageKept (chunkUsages (chunks serdeFromStr received)) := by
  have hseen := seen_foldl serdeFromStr received
  have hcollected := collected_foldl serdeFromStr args.isChat received
  have hlogged : loggedResponse args.isChat (received.foldl (ChatLog.receive serdeFromStr) {})
      (received.foldl (ChatContent.receive serdeFromStr args.isChat) {}) = some response := by
    rw [streamLoggerAudit] at h
    split at h
    · obtain ⟨r, hr, heq⟩ := Option.map_eq_some_iff.mp h
      obtain ⟨-, rfl⟩ : args.record (outcomeToStatus outcome false) = record ∧ r = response := by
        simpa using heq
      exact hr
    · simp at h
  have husage := recorded_usage hlogged hseen
  rw [← usageKept_iff, ← husage]
  constructor
  · exact fun hrecorded ↦ hrecorded.usage
  · exact fun hkept ↦ ⟨hkept, recorded_finishReason hlogged hseen hcollected,
      recorded_toolCalls hlogged hcollected⟩

def countedChunk : Json :=
  .obj [("choices", .arr [.obj [("finish_reason", .str "stop")]]),
    ("usage", .obj [("completion_tokens", .num 2), ("prompt_tokens", .num 1)])]

def uncountedChunk : Json := .obj [("choices", .arr []), ("usage", .null)]

def parseChunk (text : String) : Option Json :=
  if text = "counted" then some countedChunk else some uncountedChunk

theorem recorded_iff_counted : ∃ record response,
    streamLoggerAudit parseChunk sampleArgs .completed ["counted", "uncounted", "counted"] =
        some [(record, response)] ∧
      (Recorded true (chunks parseChunk ["counted", "uncounted", "counted"]) response ↔
        UsageKept (chunkUsages (chunks parseChunk ["counted", "uncounted", "counted"]))) :=
  ⟨_, _, rfl, @recorded_iff parseChunk sampleArgs .completed ["counted", "uncounted", "counted"] _ _
    rfl⟩

theorem usage_erased_by_null :
    ∃ record response, streamLoggerAudit parseChunk sampleArgs .completed
        ["counted", "uncounted"] = some [(record, response)] ∧
      ¬Recorded true (chunks parseChunk ["counted", "uncounted"]) response :=
  ⟨_, _, rfl, fun h ↦ absurd (congrArg Option.isSome h.usage) (by decide +kernel)⟩

end QueQiao.StreamLoggers
