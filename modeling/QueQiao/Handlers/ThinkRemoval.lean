import QueQiao.Handlers.MessageUtils
import QueQiao.Handlers.ThinkingMessages

namespace QueQiao.MessageUtils

open ErrorLogApi (Text trim trimStart)
open Lib.Delimiters
open ThinkingTransformer

/-- What is to hold of the messages that are sent to the upstream. -/
structure Clean (messages : List Message) : Prop where
  nonEmpty : ∀ message ∈ prepareChatRequest messages,
    hasContent message = true ∨ message.toolCalls.isSome = true ∨ hasReasoning message = true
  noBlock : ∀ message ∈ prepareChatRequest messages, message.role = "assistant" →
    ∀ s, message.content = some (.string s) → NoBlock s.toList
  idempotent : prepareChatRequest (prepareChatRequest messages) = prepareChatRequest messages

/-- The text of each assistant message outside its blocks has no block and no white space around
it, and is empty only beside tool calls or reasoning. -/
def CleanOutside (messages : List Message) : Prop :=
  ∀ message ∈ messages, keeps message = true → message.role = "assistant" →
    ∀ s, message.content = some (.string s) → ∀ r, Outside (trim s.toList) r →
      NoBlock r ∧ trim r = r ∧
        (r ≠ [] ∨ message.toolCalls.isSome = true ∨ hasReasoning message = true)

structure Settled (message : Message) : Prop where
  keeps : keeps (cleaned message) = true
  noBlock : message.role = "assistant" →
    ∀ s, (cleaned message).content = some (.string s) → NoBlock s.toList
  idempotent : cleaned (cleaned message) = cleaned message

theorem role_cleaned (message : Message) : (cleaned message).role = message.role := by
  rw [cleaned_eq]

theorem prepareChatRequest_again {messages : List Message}
    (hkept : ∀ message ∈ messages, keeps message = true → keeps (cleaned message) = true) :
    prepareChatRequest (prepareChatRequest messages) =
      (messages.filter keeps).map fun message ↦ cleaned (cleaned message) := by
  have hall : (prepareChatRequest messages).filter keeps = prepareChatRequest messages := by
    apply List.filter_eq_self.mpr
    intro other hother
    obtain ⟨message, hmessage, hkeeps, rfl⟩ := mem_prepareChatRequest.mp hother
    exact hkept message hmessage hkeeps
  rw [prepareChatRequest_eq, hall, prepareChatRequest_eq messages, List.map_map]
  rfl

theorem clean_iff_settled (messages : List Message) :
    Clean messages ↔ ∀ message ∈ messages, keeps message = true → Settled message := by
  constructor
  · intro hclean message hmessage hkeeps
    have hmem : ∀ message ∈ messages, keeps message = true →
        cleaned message ∈ prepareChatRequest messages :=
      fun message hmessage hkeeps ↦ mem_prepareChatRequest.mpr ⟨message, hmessage, hkeeps, rfl⟩
    have hkept : ∀ message ∈ messages, keeps message = true → keeps (cleaned message) = true :=
      fun message hmessage hkeeps ↦
        keeps_eq_true.mpr (hclean.nonEmpty _ (hmem message hmessage hkeeps))
    refine ⟨hkept message hmessage hkeeps, ?_, ?_⟩
    · intro hassistant
      exact hclean.noBlock _ (hmem message hmessage hkeeps)
        ((role_cleaned message).trans hassistant)
    · have hsame := hclean.idempotent
      rw [prepareChatRequest_again hkept, prepareChatRequest_eq messages, List.map_inj_left]
        at hsame
      exact hsame message (List.mem_filter.mpr ⟨hmessage, hkeeps⟩)
  · intro hsettled
    refine ⟨?_, ?_, ?_⟩
    · intro other hother
      obtain ⟨message, hmessage, hkeeps, rfl⟩ := mem_prepareChatRequest.mp hother
      exact keeps_eq_true.mp (hsettled message hmessage hkeeps).keeps
    · intro other hother hassistant
      obtain ⟨message, hmessage, hkeeps, rfl⟩ := mem_prepareChatRequest.mp hother
      exact (hsettled message hmessage hkeeps).noBlock
        ((role_cleaned message).symm.trans hassistant)
    · rw [prepareChatRequest_again fun message hmessage hkeeps ↦
        (hsettled message hmessage hkeeps).keeps, prepareChatRequest_eq messages,
        List.map_inj_left]
      intro message hmessage
      obtain ⟨hmessage, hkeeps⟩ := List.mem_filter.mp hmessage
      exact (hsettled message hmessage hkeeps).idempotent

theorem sanitizePart_sanitizePart (part : ContentPart) :
    sanitizePart (sanitizePart part) = sanitizePart part := by
  rw [sanitizePart]
  by_cases htype : part.type = "text"
  · have htext : part.text.map (trimmed ∘ trimmed) = part.text.map trimmed := by
      apply Option.map_congr
      intro s _
      exact trimmed_trimmed s
    simp [sanitizePart, htype, htext]
  · simp [sanitizePart, htype]

theorem settled_of_plain {message : Message} (hkeeps : keeps message = true)
    (hplain : ∀ s, message.content = some (.string s) → message.role ≠ "assistant") :
    Settled message := by
  obtain ⟨role, content, reasoning, reasoningContent, toolCalls, toolCallId⟩ := message
  have hagain : ∀ c, content = some c →
      cleanedContent role (cleanedContent role c) = cleanedContent role c ∧
        hasContent ⟨role, some (cleanedContent role c), reasoning, reasoningContent, toolCalls,
            toolCallId⟩ =
          hasContent ⟨role, some c, reasoning, reasoningContent, toolCalls, toolCallId⟩ := by
    intro c hc
    cases c with
    | string s =>
      have hrole : role ≠ "assistant" := hplain s hc
      simp only [cleanedContent, hrole, if_false, trimmed_trimmed, hasContent,
        trimIsEmpty_trimmed, and_self]
    | array parts =>
      have hparts : (parts.map sanitizePart).map sanitizePart = parts.map sanitizePart := by
        rw [List.map_map]
        apply List.map_congr_left
        intro part _
        exact sanitizePart_sanitizePart part
      refine ⟨congrArg MessageContent.array hparts, ?_⟩
      simp [hasContent, cleanedContent]
  rw [keeps] at hkeeps
  cases content with
  | none =>
    refine ⟨by rwa [keeps, cleaned_eq], ?_, by simp only [cleaned_eq, Option.map_none]⟩
    intro _ s hs
    rw [cleaned_eq] at hs
    cases hs
  | some c =>
    obtain ⟨hidempotent, hsame⟩ := hagain c rfl
    refine ⟨?_, ?_, ?_⟩
    · rw [keeps, cleaned_eq]
      simp only [Option.map_some, hsame]
      exact hkeeps
    · intro hassistant s hs
      rw [cleaned_eq] at hs
      cases c with
      | string s => exact absurd hassistant (hplain s rfl)
      | array parts => cases hs
    · simp only [cleaned_eq, Option.map_some, hidempotent]

theorem noBlock_of_isInfix {r t : Text} (h : NoBlock r) (ht : t <:+: r) : NoBlock t := by
  rintro a b c rfl
  obtain ⟨u, v, huv⟩ := ht
  exact h (u ++ a) b (c ++ v) (by rw [← huv]; simp only [List.append_assoc])

theorem trim_isInfix (s : Text) : trim s <:+: s := by
  have hprefix : trim s <+: trimStart s := List.rdropWhile_prefix isWhiteSpace _
  exact hprefix.isInfix.trans (List.dropWhile_suffix _).isInfix

theorem toList_withoutThinkTags (s : String) :
    (withoutThinkTags (trimmed s)).toList = (thinkBlocks (trim s.toList)).2 := by
  rw [withoutThinkTags, trimmed, String.toList_ofList, String.toList_ofList]

theorem cleaned_assistant {message : Message} {s : String} (hrole : message.role = "assistant")
    (hcontent : message.content = some (.string s)) : cleaned message =
      { message with content := some (.string (withoutThinkTags (trimmed s))) } := by
  rw [cleaned_eq, hcontent, hrole]
  simp only [cleanedContent, Option.map_some, if_true]

theorem keeps_string (message : Message) (text : String) :
    keeps { message with content := some (.string text) } = true ↔
      trim text.toList ≠ [] ∨ message.toolCalls.isSome = true ∨ hasReasoning message = true := by
  rw [keeps_eq_true]
  apply or_congr_left
  rw [hasContent, Bool.not_eq_true', Bool.eq_false_iff, Ne, trimIsEmpty_iff, trimmed,
    ← String.toList_inj, String.toList_ofList]
  rfl

theorem settled_iff {message : Message} {s : String} (hrole : message.role = "assistant")
    (hcontent : message.content = some (.string s)) :
    Settled message ↔ ∀ r, Outside (trim s.toList) r → NoBlock r ∧ trim r = r ∧
      (r ≠ [] ∨ message.toolCalls.isSome = true ∨ hasReasoning message = true) := by
  have hcleaned := cleaned_assistant hrole hcontent
  have htext := toList_withoutThinkTags s
  have hkeeps := keeps_string message (withoutThinkTags (trimmed s))
  rw [htext] at hkeeps
  generalize hr : (thinkBlocks (trim s.toList)).2 = r at htext hkeeps
  have hidempotent : cleaned (cleaned message) = cleaned message ↔
      (thinkBlocks (trim r)).2 = r := by
    have hagain := @cleaned_assistant { message with
      content := some (.string (withoutThinkTags (trimmed s))) } _ hrole rfl
    rw [hcleaned, hagain]
    simp only [Message.mk.injEq, Option.some.injEq, MessageContent.string.injEq, true_and, and_true]
    rw [← String.toList_inj, toList_withoutThinkTags, htext]
  constructor
  · intro hsettled r' hr'
    obtain rfl : r' = r := (thinkBlocks_of_outside hr').symm.trans hr
    have hnoBlock : NoBlock r' := by
      have hblock := hsettled.noBlock hrole (withoutThinkTags (trimmed s)) (by rw [hcleaned])
      rwa [htext] at hblock
    have htrim : trim r' = r' := by
      have hsame := hidempotent.mp hsettled.idempotent
      rwa [thinkBlocks_of_noBlock (noBlock_of_isInfix hnoBlock (trim_isInfix r'))] at hsame
    refine ⟨hnoBlock, htrim, ?_⟩
    have hkept := hsettled.keeps
    rw [hcleaned, hkeeps, htrim] at hkept
    exact hkept
  · intro hclean
    obtain ⟨hnoBlock, htrim, hkept⟩ := hclean r (hr ▸ outside_thinkBlocks (trim s.toList))
    refine ⟨?_, ?_, ?_⟩
    · rw [hcleaned, hkeeps, htrim]
      exact hkept
    · intro _ text htext'
      rw [hcleaned] at htext'
      obtain rfl := MessageContent.string.inj (Option.some.inj htext')
      rwa [htext]
    · rw [hidempotent, htrim, thinkBlocks_of_noBlock hnoBlock]

theorem clean_iff (messages : List Message) : Clean messages ↔ CleanOutside messages := by
  rw [clean_iff_settled]
  constructor
  · intro hsettled message hmessage hkeeps hrole s hcontent
    exact (settled_iff hrole hcontent).mp (hsettled message hmessage hkeeps)
  · intro hclean message hmessage hkeeps
    by_cases hrole : message.role = "assistant"
    · cases hcontent : message.content with
      | none => exact settled_of_plain hkeeps fun s hs ↦ by rw [hcontent] at hs; cases hs
      | some content =>
        cases content with
        | string s =>
          exact (settled_iff hrole hcontent).mpr (hclean message hmessage hkeeps hrole s hcontent)
        | array parts =>
          exact settled_of_plain hkeeps fun s hs ↦ by rw [hcontent] at hs; cases hs
    · exact settled_of_plain hkeeps fun _ _ ↦ hrole

def onlyThoughts : List Message :=
  [{ role := "assistant", content := some (.string "<think>x</think>") }]

theorem only_thoughts_emptied : ¬Clean onlyThoughts := by
  intro hclean
  have hsettled : Settled onlyThoughts[0] :=
    (clean_iff_settled onlyThoughts).mp hclean onlyThoughts[0] List.mem_cons_self (by decide)
  have htrim : trim "<think>x</think>".toList =
      [] ++ (openTag ++ (['x'] ++ (closeTag ++ []))) := by
    decide
  have houtside : Outside (trim "<think>x</think>".toList) [] := by
    rw [htrim]
    refine Outside.block (by decide) (by decide) (Outside.rest ?_)
    intro a b c hnil
    have hlength := congrArg List.length hnil
    rw [List.length_nil, List.length_append, List.length_append] at hlength
    have hopen : 0 < openTag.length := by decide
    omega
  obtain ⟨-, -, hfilled⟩ := (settled_iff rfl rfl).mp hsettled [] houtside
  rcases hfilled with hne | hcalls | hreasoning
  · exact hne rfl
  · cases hcalls
  · cases hreasoning

end QueQiao.MessageUtils
