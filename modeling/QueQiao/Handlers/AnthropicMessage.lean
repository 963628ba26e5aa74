import Mathlib.Data.List.DropRight
import QueQiao.Handlers.AuditOnce

namespace QueQiao.StreamLoggers

open Json AnthropicStreamAccumulator
open Lib.Transition (foldlM_seen)

def giveUsage (usages : List Json) (chunk : Json) : List Json :=
  match startedMessage chunk with
  | some msg => (msg.get "usage").toList
  | none =>
    if isType chunk "message_delta" then usages ++ (chunk.get "usage").toList else usages

def givenUsages (events : List Json) : List Json := events.foldl giveUsage []

def overridden (usages : List Json) (key : String) : Option Json :=
  (usages.filterMap (·.get key)).getLast?

/-- The last usage has every field that a usage before it has. -/
def LastComplete (usages : List Json) : Prop :=
  ∀ last, usages.getLast? = some last → ∀ usage ∈ usages, ∀ key,
    (usage.get key).isSome = true → (last.get key).isSome = true

def appendedFields : List String := ["thinking", "text", "partial_json"]

def blockText (block : Json) (key : String) : String := (textOf block key).getD ""

def deltaPart (i : ℕ) (key : String) (chunk : Json) : String :=
  if isType chunk "content_block_delta" && index chunk == i then
    match deltaText chunk with
    | some (k, _, text) => if k = key then text else ""
    | none => ""
  else ""

def sinceStart (events : List Json) (i : ℕ) : List Json :=
  events.rtakeWhile fun chunk ↦ !startsBlock i chunk

/-- The text of a block: what it was started with, and its deltas one after another. -/
def expectedText (events : List Json) (i : ℕ) (key : String) : String :=
  blockText ((lastStart events i).getD (.obj [])) key ++
    String.join ((sinceStart events i).map (deltaPart i key))

structure Accumulated (events : List Json) (acc : AnthropicStreamAccumulator) : Prop where
  usage : ∀ ending key, ((toFinalResponseJson acc ending).get "usage").bind (·.get key) =
    overridden (givenUsages events) key
  text : ∀ i, ∀ key ∈ appendedFields, blockText (block acc i) key = expectedText events i key

theorem bind_getLast?_eq_overridden_iff (usages : List Json) :
    (∀ key, usages.getLast?.bind (·.get key) = overridden usages key) ↔ LastComplete usages := by
  rcases List.eq_nil_or_concat usages with rfl | ⟨before, last, rfl⟩
  · simp [overridden, LastComplete]
  rw [List.concat_eq_append]
  have hlast : (before ++ [last]).getLast? = some last := List.getLast?_concat
  have hover : ∀ key, overridden (before ++ [last]) key =
      (last.get key).or (overridden before key) := by
    intro key
    rw [overridden, List.filterMap_append]
    cases h : last.get key with
    | none => simp [overridden, h]
    | some v => simp [h]
  simp only [hlast, Option.bind_some, hover, LastComplete, Option.some.injEq, forall_eq']
  constructor
  · intro h usage husage key hkey
    cases hk : last.get key with
    | some v => rfl
    | none =>
      have hempty : overridden before key = none := by simpa [hk] using (h key).symm
      rcases List.mem_append.mp husage with hbefore | hl
      · obtain ⟨v, hv⟩ := Option.isSome_iff_exists.mp hkey
        have hmem : v ∈ before.filterMap (·.get key) := List.mem_filterMap.mpr ⟨usage, hbefore, hv⟩
        rw [List.getLast?_eq_none_iff.mp hempty] at hmem
        exact absurd hmem List.not_mem_nil
      · rw [List.mem_singleton.mp hl, hk] at hkey
        cases hkey
  · intro h key
    cases hk : last.get key with
    | some v => rfl
    | none =>
      rw [Option.none_or, eq_comm, overridden, List.getLast?_eq_none_iff,
        List.filterMap_eq_nil_iff]
      intro usage husage
      by_contra hne
      have hsome := h usage (List.mem_append_left _ husage) key
        (Option.isSome_iff_ne_none.mpr hne)
      rw [hk] at hsome
      cases hsome

/-- What the accumulator holds of the usages and of the texts. -/
structure Collects (seen : List Json) (acc : AnthropicStreamAccumulator) : Prop where
  usage : acc.usage = (givenUsages seen).getLast?
  text : ∀ i, ∀ key ∈ appendedFields, blockText (block acc i) key = expectedText seen i key

theorem collects_nil : Collects [] {} := ⟨rfl, fun _ _ _ ↦ rfl⟩

theorem givenUsages_concat (seen : List Json) (chunk : Json) :
    givenUsages (seen ++ [chunk]) = giveUsage (givenUsages seen) chunk := by
  rw [givenUsages, List.foldl_concat, givenUsages]

theorem getLast?_append_toList {α : Type} (l : List α) (x : Option α) :
    (l ++ x.toList).getLast? = x.or l.getLast? := by
  cases x with
  | none => simp
  | some a => simp

theorem handle_usage_concat {seen : List Json} {acc acc' : AnthropicStreamAccumulator}
    {chunk : Json} (h : acc.usage = (givenUsages seen).getLast?)
    (hacc : acc.handle chunk = some acc') :
    acc'.usage = (givenUsages (seen ++ [chunk])).getLast? := by
  rw [givenUsages_concat, giveUsage]
  rw [handle] at hacc
  by_cases hmessage : isType chunk "message_start" = true
  · have hdelta := isType_unique hmessage "message_delta" (by decide)
    have hmsg : startedMessage chunk = chunk.get "message" := by rw [startedMessage, if_pos hmessage]
    rw [if_pos hmessage] at hacc
    obtain rfl := Option.some.inj hacc
    rw [hmsg, hdelta, handleMessageStart]
    cases chunk.get "message" with
    | none => exact h
    | some msg => cases hu : msg.get "usage" <;> simp [hu]
  rw [if_neg hmessage] at hacc
  rw [startedMessage_of_not (Bool.eq_false_iff.mpr hmessage)]
  by_cases hstart : isType chunk "content_block_start" = true
  · have hdelta := isType_unique hstart "message_delta" (by decide)
    rw [if_pos hstart] at hacc
    obtain rfl := Option.some.inj hacc
    rw [hdelta]
    exact h
  rw [if_neg hstart] at hacc
  by_cases hpart : isType chunk "content_block_delta" = true
  · have hdelta := isType_unique hpart "message_delta" (by decide)
    rw [if_pos hpart] at hacc
    rw [hdelta]
    exact (handleContentBlockDelta_usage hacc).trans h
  rw [if_neg hpart] at hacc
  by_cases hdelta : isType chunk "message_delta" = true
  · rw [if_pos hdelta] at hacc
    obtain rfl := Option.some.inj hacc
    dsimp only
    rw [if_pos hdelta, getLast?_append_toList, handleMessageDelta, h]
  · rw [if_neg hdelta] at hacc
    obtain rfl := Option.some.inj hacc
    dsimp only
    rw [if_neg hdelta]
    exact h

theorem sinceStart_concat (seen : List Json) (chunk : Json) (i : ℕ) :
    sinceStart (seen ++ [chunk]) i =
      if startsBlock i chunk then [] else sinceStart seen i ++ [chunk] := by
  rw [sinceStart, List.rtakeWhile_concat]
  cases startsBlock i chunk <;> rfl

theorem join_concat (texts : List String) (text : String) :
    String.join (texts ++ [text]) = String.join texts ++ text := by
  simp [String.join]

theorem expectedText_concat (seen : List Json) {chunk : Json} {i : ℕ}
    (h : startsBlock i chunk = false) (key : String) :
    expectedText (seen ++ [chunk]) i key = expectedText seen i key ++ deltaPart i key chunk := by
  rw [expectedText, lastStart_concat, sinceStart_concat, h, if_neg Bool.false_ne_true,
    if_neg Bool.false_ne_true, List.map_append, List.map_singleton, join_concat,
    ← String.append_assoc, expectedText]

theorem textOf_setField {k value : String} {v v' : Json} (h : setField k value v = some v')
    (key : String) : textOf v' key = if key = k then some value else textOf v key := by
  cases v with
  | null =>
    obtain rfl := Option.some.inj h
    by_cases hk : key = k
    · simp [textOf, Json.get, hk, asStr]
    · simp [textOf, Json.get, hk, List.lookup_cons, beq_eq_false_iff_ne.mpr hk]
  | obj fields =>
    obtain rfl := Option.some.inj h
    have hget : ∀ fs : Fields, Json.get (.obj fs) key = Fields.get fs key := fun _ ↦ rfl
    by_cases hk : key = k
    · subst hk
      rw [textOf, hget, Fields.get_insert_self, if_pos rfl]
      rfl
    · rw [textOf, hget, Fields.get_insert_ne hk, if_neg hk, textOf, hget]
  | bool | num | str | arr => cases h

theorem append_of_deltaField {kind k : String} {append : Bool}
    (h : deltaField kind = some (k, append)) (hk : k ∈ appendedFields) : append = true := by
  simp only [deltaField, List.lookup_cons, List.lookup_nil] at h
  split at h
  · exact (congrArg Prod.snd (Option.some.inj h)).symm
  split at h
  · exact (congrArg Prod.snd (Option.some.inj h)).symm
  split at h
  · obtain rfl := congrArg Prod.fst (Option.some.inj h)
    exact absurd hk (by decide)
  split at h
  · exact (congrArg Prod.snd (Option.some.inj h)).symm
  · cases h

theorem handleContentBlockDelta_some {chunk : Json} (acc : AnthropicStreamAccumulator)
    {k text : String} {append : Bool} (htext : deltaText chunk = some (k, append, text)) :
    acc.handleContentBlockDelta chunk =
      (setField k ((if append then blockText (block acc (index chunk)) k else "") ++ text)
        (block acc (index chunk))).map (acc.insertBlock (index chunk)) := by
  obtain ⟨delta, hdelta, hfield⟩ := Option.bind_eq_some_iff.mp htext
  simp only [textOf] at hfield
  rw [handleContentBlockDelta, hdelta]
  dsimp only
  rw [hfield]
  rfl

theorem blockText_setField {chunk : Json} {k text key : String} {append : Bool} {v v' : Json}
    (htext : deltaText chunk = some (k, append, text)) (hkey : key ∈ appendedFields)
    (h : setField k ((if append then blockText v k else "") ++ text) v = some v') :
    blockText v' key = blockText v key ++ if k = key then text else "" := by
  rw [blockText, textOf_setField h]
  by_cases hk : key = k
  · subst hk
    obtain ⟨delta, -, hfield⟩ := Option.bind_eq_some_iff.mp htext
    obtain ⟨⟨k', append'⟩, hlookup, hmap⟩ := Option.bind_eq_some_iff.mp hfield
    obtain ⟨text', -, heq⟩ := Option.map_eq_some_iff.mp hmap
    obtain ⟨rfl, rfl, rfl⟩ : k' = key ∧ append' = append ∧ text' = text := by simpa using heq
    rw [append_of_deltaField hlookup hkey]
    simp
  · rw [if_neg hk, if_neg (Ne.symm hk), String.append_empty, blockText]

theorem deltaPart_of_not {chunk : Json} (h : isType chunk "content_block_delta" = false) (i : ℕ)
    (key : String) : deltaPart i key chunk = "" := by
  rw [deltaPart, h]
  rfl

theorem handle_text_concat {seen : List Json} {acc acc' : AnthropicStreamAccumulator}
    {chunk : Json}
    (h : ∀ i, ∀ key ∈ appendedFields, blockText (block acc i) key = expectedText seen i key)
    (hacc : acc.handle chunk = some acc') :
    ∀ i, ∀ key ∈ appendedFields,
      blockText (block acc' i) key = expectedText (seen ++ [chunk]) i key := by
  intro i key hkey
  have hsame : isType chunk "content_block_start" = false →
      isType chunk "content_block_delta" = false → acc'.contentBlocks = acc.contentBlocks →
      blockText (block acc' i) key = expectedText (seen ++ [chunk]) i key := by
    intro hstart hdelta hblocks
    rw [expectedText_concat seen (by rw [startsBlock, hstart]; rfl), deltaPart_of_not hdelta,
      String.append_empty, ← h i key hkey, block, block, hblocks]
  rw [handle] at hacc
  by_cases hmessage : isType chunk "message_start" = true
  · have hstart := isType_unique hmessage "content_block_start" (by decide)
    have hdelta := isType_unique hmessage "content_block_delta" (by decide)
    rw [if_pos hmessage] at hacc
    obtain rfl := Option.some.inj hacc
    refine hsame hstart hdelta ?_
    rw [handleMessageStart]
    split <;> rfl
  rw [if_neg hmessage] at hacc
  by_cases hstart : isType chunk "content_block_start" = true
  · have hdelta := isType_unique hstart "content_block_delta" (by decide)
    rw [if_pos hstart] at hacc
    obtain rfl := Option.some.inj hacc
    rw [handleContentBlockStart, block_insertBlock]
    by_cases hi : i = index chunk
    · have hstarts : startsBlock i chunk = true := by
        rw [startsBlock, hstart, hi, beq_self_eq_true, Bool.and_true]
      rw [if_pos hi, expectedText, lastStart_concat, sinceStart_concat, if_pos hstarts,
        if_pos hstarts]
      exact (String.append_empty).symm
    · have hnot : startsBlock i chunk = false := by
        rw [startsBlock, beq_eq_false_iff_ne.mpr (Ne.symm hi), Bool.and_false]
      rw [if_neg hi, expectedText_concat seen hnot, deltaPart_of_not hdelta,
        String.append_empty, h i key hkey]
  rw [if_neg hstart] at hacc
  rw [Bool.not_eq_true] at hstart
  by_cases hdelta : isType chunk "content_block_delta" = true
  · rw [if_pos hdelta] at hacc
    rw [expectedText_concat seen (by rw [startsBlock, hstart]; rfl), ← h i key hkey, deltaPart,
      hdelta, Bool.true_and]
    cases htext : deltaText chunk with
    | none =>
      have hkeep : block acc' i = block acc i := by
        cases hget : chunk.get "delta" with
        | none =>
          rw [handleContentBlockDelta, hget] at hacc
          rw [Option.some.inj hacc]
        | some delta =>
          rw [handleContentBlockDelta_no_text acc hget htext] at hacc
          rw [← Option.some.inj hacc, block_insertBlock]
          split
          · rename_i hi
            rw [hi]
          · rfl
      simp [hkeep]
    | some r =>
      obtain ⟨k, append, text⟩ := r
      rw [handleContentBlockDelta_some acc htext] at hacc
      obtain ⟨v, hset, rfl⟩ := Option.map_eq_some_iff.mp hacc
      rw [block_insertBlock]
      by_cases hi : i = index chunk
      · rw [if_pos hi, blockText_setField htext hkey hset, hi, beq_self_eq_true, if_pos rfl]
      · rw [if_neg hi, beq_eq_false_iff_ne.mpr (Ne.symm hi), if_neg Bool.false_ne_true,
          String.append_empty]
  · rw [if_neg hdelta] at hacc
    rw [Bool.not_eq_true] at hdelta
    split at hacc
    · obtain rfl := Option.some.inj hacc
      exact hsame hstart hdelta rfl
    · obtain rfl := Option.some.inj hacc
      exact hsame hstart hdelta rfl

theorem Collects.handleAll {seen events : List Json} {acc acc' : AnthropicStreamAccumulator}
    (h : Collects seen acc) (hacc : StreamLoggers.handleAll acc events = some acc') :
    Collects (seen ++ events) acc' :=
  foldlM_seen (fun _ _ _ _ h hnext ↦
    ⟨handle_usage_concat h.usage hnext, handle_text_concat h.text hnext⟩) h hacc

theorem finalUsage (acc : AnthropicStreamAccumulator) (ending : MessageEnding) (key : String) :
    ((toFinalResponseJson acc ending).get "usage").bind (·.get key) =
      acc.usage.bind (·.get key) := by
  have hget : (toFinalResponseJson acc ending).get "usage" = some (acc.usage.getD .null) := by
    simp [toFinalResponseJson, messageJson, Json.get, List.lookup_cons]
  rw [hget]
  cases acc.usage <;> rfl

theorem Collects.accumulated_iff {events : List Json} {acc : AnthropicStreamAccumulator}
    (h : Collects events acc) : Accumulated events acc ↔ LastComplete (givenUsages events) := by
  rw [← bind_getLast?_eq_overridden_iff, ← h.usage]
  constructor
  · intro hacc key
    rw [← hacc.usage {} key, finalUsage]
  · intro husage
    exact ⟨fun ending key ↦ (finalUsage acc ending key).trans (husage key), h.text⟩

theorem handleAll_accumulated_iff (events : List Json) :
    (∃ acc, handleAll {} events = some acc ∧ Accumulated events acc) ↔
      DeltasFit events ∧ LastComplete (givenUsages events) := by
  have hfits : (handleAll {} events).isSome = true ↔ DeltasFit events :=
    isSome_handleAll_iff tracks_nil
  constructor
  · rintro ⟨acc, hrun, hacc⟩
    have hcollects : Collects events acc := collects_nil.handleAll hrun
    exact ⟨hfits.mp (by rw [hrun]; rfl), hcollects.accumulated_iff.mp hacc⟩
  · rintro ⟨hdeltas, hlast⟩
    obtain ⟨acc, hrun⟩ := Option.isSome_iff_exists.mp (hfits.mpr hdeltas)
    have hcollects : Collects events acc := collects_nil.handleAll hrun
    exact ⟨acc, hrun, hcollects.accumulated_iff.mpr hlast⟩

section

variable (serdeFromStr : String → Option Json)

def messageEvents (received : List String) : List Json :=
  untilStop (received.filterMap serdeFromStr)

theorem exists_receiveMessages_iff (P : AnthropicStreamAccumulator → Prop)
    (received : List String) :
    (∃ acc stop, receiveMessages serdeFromStr {} received = some (acc, stop) ∧ P acc) ↔
      ∃ acc, handleAll {} (messageEvents serdeFromStr received) = some acc ∧ P acc := by
  obtain ⟨stop, hrun⟩ := receiveMessages_eq serdeFromStr {} received
  rw [hrun, ← messageEvents]
  cases handleAll {} (messageEvents serdeFromStr received) <;> simp

/-- The task accumulates the message exactly if no delta panics and the last usage is
complete. -/
theorem receiveMessages_accumulated_iff (received : List String) :
    (∃ acc stop, receiveMessages serdeFromStr {} received = some (acc, stop) ∧
        Accumulated (messageEvents serdeFromStr received) acc) ↔
      DeltasFit (messageEvents serdeFromStr received) ∧
        LastComplete (givenUsages (messageEvents serdeFromStr received)) := by
  rw [exists_receiveMessages_iff serdeFromStr, handleAll_accumulated_iff]

end

def startEvent : Json :=
  .obj [("message", .obj [("usage", .obj [("input_tokens", .num 50), ("output_tokens", .num 0)])]),
    ("type", .str "message_start")]

def deltaEvent : Json :=
  .obj [("type", .str "message_delta"), ("usage", .obj [("output_tokens", .num 123)])]

def parseEvent (s : String) : Option Json :=
  if s = "start" then some startEvent else some deltaEvent

theorem input_tokens_lost :
    ¬∃ acc stop, receiveMessages parseEvent {} ["start", "delta"] = some (acc, stop) ∧
      Accumulated (messageEvents parseEvent ["start", "delta"]) acc := by
  rw [exists_receiveMessages_iff, handleAll_accumulated_iff]
  rintro ⟨-, hlast⟩
  have hevents : messageEvents parseEvent ["start", "delta"] = [startEvent, deltaEvent] := by
    rfl
  rw [hevents] at hlast
  have hkept := hlast (.obj [("output_tokens", .num 123)]) (by rfl)
    (.obj [("input_tokens", .num 50), ("output_tokens", .num 0)]) (.head _) "input_tokens" rfl
  cases hkept

end QueQiao.StreamLoggers
