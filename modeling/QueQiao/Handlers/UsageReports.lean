import QueQiao.Handlers.StreamLoggers
import QueQiao.Lib.Transition

namespace QueQiao.StreamLoggers

open StreamHandler RequestMetrics
open Lib.Transition (foldl_seen)

def complete (usage : Option Json) : Option (ℕ × ℕ) := (usage.map usageCounts).bind bothCounts

/-- Of each kind the last count that the usages give, and zero if they give none. -/
def reported (usages : List Json) : ℕ × ℕ :=
  ((usages.filterMap fun usage ↦ (usageCounts usage).1).getLast?.getD 0,
    (usages.filterMap fun usage ↦ (usageCounts usage).2).getLast?.getD 0)

theorem bothCounts_eq_some {counts : Option ℕ × Option ℕ} {t : ℕ × ℕ}
    (h : bothCounts counts = some t) : counts = (some t.1, some t.2) := by
  obtain ⟨completion, prompt⟩ := counts
  cases completion <;> cases prompt <;> cases h
  rfl

theorem reported_of_complete {usages : List Json} {usage : Json} {t : ℕ × ℕ}
    (hlast : usages.getLast? = some usage) (h : bothCounts (usageCounts usage) = some t) :
    reported usages = t := by
  obtain ⟨before, rfl⟩ := List.getLast?_eq_some_iff.mp hlast
  have hcounts := bothCounts_eq_some h
  have h1 : (usageCounts usage).1 = some t.1 := congrArg Prod.fst hcounts
  have h2 : (usageCounts usage).2 = some t.2 := congrArg Prod.snd hcounts
  simp [reported, List.filterMap_append, h1, h2]

theorem tokens_event (args : LoggerArgs) (isSuccess : Bool) (counts : Option ℕ × Option ℕ) :
    (args.event isSuccess counts).tokens = (bothCounts counts).getD 0 := by
  obtain ⟨completion, prompt⟩ := counts
  cases completion <;> cases prompt <;> rfl

theorem bothCounts_getD (counts : Option (Option ℕ × Option ℕ)) :
    bothCounts (counts.getD (none, none)) = counts.bind bothCounts := by
  cases counts <;> rfl

/-- The tokens of an event that carries a last usage are the reported ones exactly when the usage
has both counts, or nothing is reported. -/
theorem complete_getD_eq_reported {last : Option Json} {usages : List Json}
    (hlast : ∀ usage, last = some usage → usages.getLast? = some usage) :
    (complete last).getD 0 = reported usages ↔
      (complete last).isSome = true ∨ reported usages = 0 := by
  cases hc : complete last with
  | none => simp [eq_comm]
  | some t =>
    obtain ⟨counts, hcounts, hboth⟩ := Option.bind_eq_some_iff.mp hc
    obtain ⟨usage, husage, rfl⟩ := Option.map_eq_some_iff.mp hcounts
    simp [reported_of_complete (hlast usage husage) hboth]

theorem getLast?_filterMap_cons {α β : Type} (f : α → Option β) (x : α) (l : List α) :
    ((x :: l).filterMap f).getLast? = (l.filterMap f).getLast?.or (f x) := by
  cases hx : f x with
  | none => rw [List.filterMap_cons_none hx, Option.or_none]
  | some y =>
    rw [List.filterMap_cons_some hx, List.getLast?_cons]
    cases (l.filterMap f).getLast? <;> rfl

/-- One event, and tokens that grow by the final counts. -/
def Emitted.CountsOnce (emitted : Emitted) (final : ℕ × ℕ) : Prop :=
  emitted.events.length = 1 ∧
    (emitted.counted.map (·.2)).sum + (emitted.events.map MetricEvent.tokens).sum = final

section Chat

variable (serdeFromStr : String → Option Json)

/-- The chunks of a stream that the task of chat and text completions can read. -/
def chunks (received : List String) : List Json :=
  (received.filter (· ≠ streamUpstreamErrorSentinel)).filterMap serdeFromStr

def chunkUsages (chunks : List Json) : List Json := chunks.filterMap (·.get "usage")

def completeChat (usage : Json) : Option (ℕ × ℕ) := bothCounts (chatCounts usage)

def closing (chunks : List Json) : Json :=
  ChatLog.finalChunk { firstChunk := chunks.head?, lastChunk := chunks.getLast? }

structure Seen (chunks : List Json) (s : ChatLog) : Prop where
  first : s.firstChunk = chunks.head?
  last : s.lastChunk = chunks.getLast?
  usage : s.capturedUsage = (chunkUsages chunks).getLast?
  counted : s.counted = (chunkUsages chunks).filterMap completeChat

theorem Seen.chunk {seen : List Json} {s : ChatLog} (h : Seen seen s) {chunkStr : String}
    {chunk : Json} (hsentinel : chunkStr ≠ streamUpstreamErrorSentinel)
    (hchunk : serdeFromStr chunkStr = some chunk) :
    Seen (seen ++ [chunk]) (s.receive serdeFromStr chunkStr) := by
  have hfirst : s.firstChunk.or (some chunk) = (seen ++ [chunk]).head? := by
    rw [h.first]
    cases seen <;> rfl
  have husages : chunkUsages (seen ++ [chunk]) =
      chunkUsages seen ++ (chunk.get "usage").toList := by
    rw [chunkUsages, List.filterMap_append]
    cases hu : chunk.get "usage" <;> simp [hu, chunkUsages]
  rw [ChatLog.receive, if_neg hsentinel, hchunk]
  dsimp only
  split
  · rename_i hu
    rw [hu, Option.toList_none, List.append_nil] at husages
    exact ⟨hfirst, List.getLast?_concat.symm, husages ▸ h.usage, husages ▸ h.counted⟩
  · rename_i usage hu
    rw [hu, Option.toList_some] at husages
    refine ⟨hfirst, List.getLast?_concat.symm, ?_, ?_⟩
    · rw [husages, List.getLast?_concat]
    · have hone : [usage].filterMap completeChat = (completeChat usage).toList := by
        cases hc : completeChat usage <;> simp [hc]
      rw [husages, List.filterMap_append, ← h.counted, hone]
      rfl

theorem Seen.skip {seen : List Json} {s : ChatLog} (h : Seen seen s) {chunkStr : String}
    (hskip : chunkStr = streamUpstreamErrorSentinel ∨ serdeFromStr chunkStr = none) :
    Seen seen (s.receive serdeFromStr chunkStr) := by
  rw [ChatLog.receive]
  split
  · exact ⟨h.first, h.last, h.usage, h.counted⟩
  · rename_i hsentinel
    rw [hskip.resolve_left hsentinel]
    exact h

theorem seen_nil : Seen [] {} := ⟨rfl, rfl, rfl, rfl⟩

theorem foldl_chunks {σ : Type*} {P : List Json → σ → Prop} {receive : σ → String → σ}
    (hskip : ∀ seen s chunkStr, P seen s →
      chunkStr = streamUpstreamErrorSentinel ∨ serdeFromStr chunkStr = none →
        P seen (receive s chunkStr))
    (hchunk : ∀ seen s chunkStr chunk, P seen s → chunkStr ≠ streamUpstreamErrorSentinel →
      serdeFromStr chunkStr = some chunk → P (seen ++ [chunk]) (receive s chunkStr))
    {s : σ} (h : P [] s) (received : List String) :
    P (chunks serdeFromStr received) (received.foldl receive s) := by
  have hstep (seen : List String) (s : σ) (chunkStr : String)
      (hseen : P (chunks serdeFromStr seen) s) :
      P (chunks serdeFromStr (seen ++ [chunkStr])) (receive s chunkStr) := by
    have happend : chunks serdeFromStr (seen ++ [chunkStr]) =
        chunks serdeFromStr seen ++ chunks serdeFromStr [chunkStr] := by
      rw [chunks, List.filter_append, List.filterMap_append]
      rfl
    rw [happend]
    by_cases hsentinel : chunkStr = streamUpstreamErrorSentinel
    · have hnone : chunks serdeFromStr [chunkStr] = [] := by simp [chunks, hsentinel]
      rw [hnone, List.append_nil]
      exact hskip _ _ _ hseen (.inl hsentinel)
    cases hparse : serdeFromStr chunkStr with
    | none =>
      have hnone : chunks serdeFromStr [chunkStr] = [] := by simp [chunks, hsentinel, hparse]
      rw [hnone, List.append_nil]
      exact hskip _ _ _ hseen (.inr hparse)
    | some chunk =>
      have hone : chunks serdeFromStr [chunkStr] = [chunk] := by simp [chunks, hsentinel, hparse]
      rw [hone]
      exact hchunk _ _ _ chunk hseen hsentinel hparse
  have hnil : P (chunks serdeFromStr []) s := h
  exact foldl_seen hstep hnil received

theorem seen_foldl (received : List String) :
    Seen (chunks serdeFromStr received) (received.foldl (ChatLog.receive serdeFromStr) {}) :=
  foldl_chunks serdeFromStr (P := Seen) (fun _ _ _ h hskip ↦ h.skip serdeFromStr hskip)
    (fun _ _ _ _ h hsentinel hchunk ↦ h.chunk serdeFromStr hsentinel hchunk) seen_nil received

/-- Exactly when the task of chat and text completions counts the request once, and the tokens
that it counts on its way and those of its event are the reported ones. -/
structure ChatCounted (outcome : StreamOutcome) (chunks : List Json) : Prop where
  logged : chunks ≠ [] ∨ outcome = .upstreamError
  takes : takesContent (closing chunks) = true
  final : ((chunkUsages chunks).getLast?.bind completeChat).isSome = true →
    ∀ counts ∈ (chunkUsages chunks).filterMap completeChat, counts = 0
  no_final : (chunkUsages chunks).getLast?.bind completeChat = none →
    ((chunkUsages chunks).filterMap completeChat).sum = reported (chunkUsages chunks)

theorem usageCounts_of_completeChat {usage : Json} {t : ℕ × ℕ} (h : completeChat usage = some t) :
    bothCounts (usageCounts usage) = some t := by
  have hcounts := bothCounts_eq_some h
  have h1 : count usage "completion_tokens" = some t.1 := congrArg Prod.fst hcounts
  have h2 : count usage "prompt_tokens" = some t.2 := congrArg Prod.snd hcounts
  rw [usageCounts, h1, h2]
  rfl

theorem sum_eq_zero_iff (counts : List (ℕ × ℕ)) : counts.sum = 0 ↔ ∀ t ∈ counts, t = 0 := by
  induction counts with
  | nil => simp
  | cons t counts ih =>
    rw [List.sum_cons, List.forall_mem_cons, ← ih]
    constructor
    · intro h
      obtain ⟨ht1, hs1⟩ := Nat.add_eq_zero_iff.mp (congrArg Prod.fst h)
      obtain ⟨ht2, hs2⟩ := Nat.add_eq_zero_iff.mp (congrArg Prod.snd h)
      exact ⟨Prod.ext ht1 ht2, Prod.ext hs1 hs2⟩
    · rintro ⟨rfl, h⟩
      rw [h]
      rfl

theorem chat_tokens (usages : List Json) :
    (usages.filterMap completeChat).sum + (usages.getLast?.bind completeChat).getD 0 =
        reported usages ↔
      ((usages.getLast?.bind completeChat).isSome = true →
        ∀ counts ∈ usages.filterMap completeChat, counts = 0) ∧
      (usages.getLast?.bind completeChat = none →
        (usages.filterMap completeChat).sum = reported usages) := by
  cases hfinal : usages.getLast?.bind completeChat with
  | none => simp
  | some t =>
    obtain ⟨usage, hlast, ht⟩ := Option.bind_eq_some_iff.mp hfinal
    rw [reported_of_complete hlast (usageCounts_of_completeChat ht), ← sum_eq_zero_iff]
    simp

def ChatLogs (outcome : StreamOutcome) (chunks : List Json) : Prop :=
  (chunks ≠ [] ∨ outcome = .upstreamError) ∧ takesContent (closing chunks) = true

def chatTokens (model : String) (chunks : List Json) : List (String × ℕ × ℕ) :=
  ((chunkUsages chunks).filterMap completeChat).map fun counts ↦ (model, counts)

theorem streamLoggerTask_cases (args : LoggerArgs) (outcome : StreamOutcome)
    (received : List String) :
    let seen := chunks serdeFromStr received
    (ChatLogs outcome seen ∧ ∃ isSuccess, streamLoggerTask serdeFromStr args outcome received =
      { records := [args.record (outcomeToStatus outcome false)]
        counted := chatTokens args.model seen
        events := [args.event isSuccess
          (((chunkUsages seen).getLast?.map chatCounts).getD (none, none))] }) ∨
    (¬ChatLogs outcome seen ∧ streamLoggerTask serdeFromStr args outcome received =
      { counted := chatTokens args.model seen }) := by
  have hseen := seen_foldl serdeFromStr received
  have hclosing : (received.foldl (ChatLog.receive serdeFromStr) {}).finalChunk =
      closing (chunks serdeFromStr received) := by
    rw [ChatLog.finalChunk, hseen.last, hseen.first]
    rfl
  have hlogs : (((received.foldl (ChatLog.receive serdeFromStr) {}).lastChunk.isSome ||
      decide (outcome = .upstreamError)) &&
        takesContent (closing (chunks serdeFromStr received))) = true ↔ ChatLogs outcome (chunks serdeFromStr received) := by
    rw [ChatLogs, hseen.last, Bool.and_eq_true, Bool.or_eq_true, decide_eq_true_eq,
      List.getLast?_isSome]
  rw [streamLoggerTask, hclosing, hseen.counted, hseen.usage]
  split
  · rename_i hevent
    exact .inl ⟨hlogs.mp hevent, _, rfl⟩
  · rename_i hevent
    exact .inr ⟨fun h ↦ hevent (hlogs.mpr h), rfl⟩

theorem streamLoggerTask_countsOnce (args : LoggerArgs) (outcome : StreamOutcome)
    (received : List String) :
    (streamLoggerTask serdeFromStr args outcome received).CountsOnce
        (reported (chunkUsages (chunks serdeFromStr received))) ↔
      ChatCounted outcome (chunks serdeFromStr received) := by
  rcases streamLoggerTask_cases serdeFromStr args outcome received with
    ⟨hlogs, isSuccess, htask⟩ | ⟨hsilent, htask⟩
  · have htokens := chat_tokens (chunkUsages (chunks serdeFromStr received))
    have hcounted : ((chatTokens args.model (chunks serdeFromStr received)).map (·.2)).sum =
        ((chunkUsages (chunks serdeFromStr received)).filterMap completeChat).sum := by
      rw [chatTokens, List.map_map]
      exact congrArg List.sum (List.map_id _)
    rw [htask, Emitted.CountsOnce, List.map_singleton, List.sum_singleton, tokens_event,
      bothCounts_getD, hcounted, Option.bind_map]
    constructor
    · rintro ⟨-, h⟩
      obtain ⟨hfinal, hno⟩ := htokens.mp h
      exact ⟨hlogs.1, hlogs.2, hfinal, hno⟩
    · intro h
      exact ⟨rfl, htokens.mpr ⟨h.final, h.no_final⟩⟩
  · rw [htask]
    constructor
    · rintro ⟨h, -⟩
      cases h
    · intro h
      exact absurd ⟨h.logged, h.takes⟩ hsilent

end Chat

section Responses

variable (serdeFromStr : String → Option Json)

def completedResponse (chunk : Json) : Option Json :=
  if isType chunk "response.completed" then chunk.get "response" else none

def completedResponses (received : List String) : List Json :=
  received.filterMap fun chunkStr ↦ (serdeFromStr chunkStr).bind completedResponse

structure ResponsesCounted (outcome : StreamOutcome) (completed : List Json) : Prop where
  logged : completed ≠ [] ∨ outcome = .upstreamError
  tokens : (complete (completed.getLast?.bind (·.get "usage"))).isSome = true ∨
    reported (chunkUsages completed) = 0

theorem receiveResponse_eq (finalResponse : Option Json) (chunkStr : String) :
    receiveResponse serdeFromStr finalResponse chunkStr =
      ((serdeFromStr chunkStr).bind completedResponse).or finalResponse := by
  rw [receiveResponse]
  cases serdeFromStr chunkStr with
  | none => rfl
  | some chunk =>
    dsimp only [Option.bind_some]
    rw [completedResponse]
    split <;> rfl

theorem foldl_receiveResponse (received : List String) (finalResponse : Option Json) :
    received.foldl (receiveResponse serdeFromStr) finalResponse =
      (completedResponses serdeFromStr received).getLast?.or finalResponse := by
  induction received generalizing finalResponse with
  | nil => rfl
  | cons chunkStr received ih =>
    rw [List.foldl_cons, ih, receiveResponse_eq, completedResponses, completedResponses,
      getLast?_filterMap_cons, Option.or_assoc]

theorem getLast?_chunkUsages {chunks : List Json} {usage : Json}
    (h : chunks.getLast?.bind (·.get "usage") = some usage) :
    (chunkUsages chunks).getLast? = some usage := by
  obtain ⟨chunk, hlast, husage⟩ := Option.bind_eq_some_iff.mp h
  obtain ⟨before, rfl⟩ := List.getLast?_eq_some_iff.mp hlast
  simp [chunkUsages, List.filterMap_append, husage]

theorem responsesStreamLoggerTask_countsOnce (args : LoggerArgs) (outcome : StreamOutcome)
    (received : List String) :
    (responsesStreamLoggerTask serdeFromStr args outcome received).CountsOnce
        (reported (chunkUsages (completedResponses serdeFromStr received))) ↔
      ResponsesCounted outcome (completedResponses serdeFromStr received) := by
  have hfinal := foldl_receiveResponse serdeFromStr received none
  rw [Option.or_none] at hfinal
  have hlogged : ((completedResponses serdeFromStr received).getLast?.isSome ||
      decide (outcome = .upstreamError)) = true ↔
        completedResponses serdeFromStr received ≠ [] ∨ outcome = .upstreamError := by
    rw [Bool.or_eq_true, decide_eq_true_eq, List.getLast?_isSome]
  rw [Emitted.CountsOnce, responsesStreamLoggerTask, hfinal]
  split
  · rename_i hevent
    have hlast (usage : Json) : ((completedResponses serdeFromStr received).getLast?.bind
        (·.get "usage")) = some usage →
          (chunkUsages (completedResponses serdeFromStr received)).getLast? = some usage :=
      getLast?_chunkUsages
    have htokens := complete_getD_eq_reported hlast
    rw [List.map_singleton, List.sum_singleton, tokens_event, bothCounts_getD]
    constructor
    · rintro ⟨-, h⟩
      exact ⟨hlogged.mp hevent, htokens.mp ((zero_add _).symm.trans h)⟩
    · intro h
      exact ⟨rfl, (zero_add _).trans (htokens.mpr h.tokens)⟩
  · rename_i hevent
    constructor
    · rintro ⟨h, -⟩
      cases h
    · intro h
      exact absurd (hlogged.mpr h.logged) hevent

end Responses

section Anthropic

open AnthropicStreamAccumulator

variable (serdeFromStr : String → Option Json)

def messageUsage (chunk : Json) : Option Json :=
  if isType chunk "message_start" then (chunk.get "message").bind (·.get "usage")
  else if isType chunk "message_delta" then chunk.get "usage"
  else none

/-- The usages that a stream gives before its `message_stop`. -/
def messageUsages (received : List String) : List Json :=
  ((received.filterMap serdeFromStr).takeWhile fun chunk ↦
    !isType chunk "message_stop").filterMap messageUsage

theorem isType_unique {chunk : Json} {kind : String} (h : isType chunk kind = true)
    (kind' : String) (hne : kind ≠ kind') : isType chunk kind' = false := by
  rw [isType, decide_eq_true_eq] at h
  rw [isType, h, decide_eq_false_iff_not]
  intro heq
  exact hne (Option.some.inj heq)

theorem handleContentBlockDelta_usage {chunk : Json} {acc acc' : AnthropicStreamAccumulator}
    (h : acc.handleContentBlockDelta chunk = some acc') : acc'.usage = acc.usage := by
  rw [handleContentBlockDelta] at h
  split at h
  · cases h
    rfl
  · dsimp only at h
    split at h
    · cases h
      rfl
    · obtain ⟨block, -, rfl⟩ := Option.map_eq_some_iff.mp h
      rfl

theorem handle_usage {chunk usage : Json} {acc acc' : AnthropicStreamAccumulator}
    (h : acc.handle chunk = some acc') (husage : acc'.usage = some usage) :
    (messageUsage chunk).or acc.usage = some usage := by
  rw [handle] at h
  rw [messageUsage]
  by_cases hstart : isType chunk "message_start" = true
  · rw [if_pos hstart] at h ⊢
    cases h
    rw [handleMessageStart] at husage
    cases hmsg : chunk.get "message" with
    | none =>
      rw [hmsg] at husage
      exact husage
    | some msg =>
      rw [hmsg] at husage
      dsimp only at husage
      rw [Option.bind_some, husage]
      rfl
  rw [if_neg hstart] at h ⊢
  by_cases hblock : isType chunk "content_block_start" = true
  · have hdelta := isType_unique hblock "message_delta" (by decide)
    rw [if_pos hblock] at h
    rw [hdelta]
    cases h
    exact husage
  rw [if_neg hblock] at h
  by_cases hpart : isType chunk "content_block_delta" = true
  · have hdelta := isType_unique hpart "message_delta" (by decide)
    rw [if_pos hpart] at h
    rw [hdelta]
    exact (handleContentBlockDelta_usage h).symm.trans husage
  rw [if_neg hpart] at h
  by_cases hdelta : isType chunk "message_delta" = true
  · rw [if_pos hdelta] at h ⊢
    cases h
    exact husage
  · rw [if_neg hdelta] at h ⊢
    cases h
    exact husage

theorem receiveMessages_usage {received : List String} {acc acc' : AnthropicStreamAccumulator}
    {stop : Bool} {usage : Json}
    (h : receiveMessages serdeFromStr acc received = some (acc', stop))
    (husage : acc'.usage = some usage) :
    (messageUsages serdeFromStr received).getLast?.or acc.usage = some usage := by
  induction received generalizing acc with
  | nil =>
    cases h
    exact husage
  | cons chunkStr received ih =>
    rw [receiveMessages] at h
    cases hchunk : serdeFromStr chunkStr with
    | none =>
      rw [hchunk] at h
      rw [messageUsages, List.filterMap_cons_none hchunk]
      exact ih h
    | some chunk =>
      rw [hchunk] at h
      rw [messageUsages, List.filterMap_cons_some hchunk, List.takeWhile_cons]
      dsimp only at h
      cases hstop : isType chunk "message_stop" with
      | true =>
        rw [hstop] at h
        cases h
        exact husage
      | false =>
        rw [hstop] at h
        obtain ⟨next, hnext, hrest⟩ := Option.bind_eq_some_iff.mp h
        have hlast := ih hrest
        rw [Bool.not_false, if_pos rfl, getLast?_filterMap_cons]
        rw [messageUsages] at hlast
        cases hgiven : (((received.filterMap serdeFromStr).takeWhile fun chunk ↦
            !isType chunk "message_stop").filterMap messageUsage).getLast? with
        | some given => rwa [hgiven] at hlast
        | none =>
          rw [hgiven, Option.none_or] at hlast
          exact handle_usage hnext hlast

end Anthropic

end QueQiao.StreamLoggers
