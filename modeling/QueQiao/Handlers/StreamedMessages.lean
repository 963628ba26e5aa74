import QueQiao.Handlers.AnthropicMessage
import QueQiao.Handlers.StreamedAnswers

namespace QueQiao.StreamLoggers

open StreamHandler Json Extract AnthropicStreamAccumulator
open Lib.Transition (foldl_seen foldlM_seen)

def touchedIndices (events : List Json) : List ℕ :=
  ((events.filter touchesBlock).map index).dedup.mergeSort (· ≤ ·)

def started (events : List Json) (i : ℕ) : Json := (lastStart events i).getD (.obj [])

/-- What the last `message_delta` says of the end. -/
def stopReason (events : List Json) : Option String :=
  ((events.filter fun chunk ↦ isType chunk "message_delta").filterMap (·.get "delta")).getLast?.bind
    (textOf · "stop_reason")

/-- A block says at once what its start and its deltas say one after another. -/
structure WholeBlock (events : List Json) (i : ℕ) (b : Json) : Prop where
  kind : textOf b "type" = textOf (started events i) "type"
  name : textOf b "name" = textOf (started events i) "name"
  text : blockText b "text" = expectedText events i "text"
  thinking : blockText b "thinking" = expectedText events i "thinking"

def deltaFields : List String := ["thinking", "text", "signature", "partial_json"]

structure Blocks (seen : List Json) (acc : AnthropicStreamAccumulator) : Prop where
  nodup : (acc.contentBlocks.map Prod.fst).Nodup
  mem_iff : ∀ i, i ∈ acc.contentBlocks.map Prod.fst ↔ i ∈ (seen.filter touchesBlock).map index
  fields : ∀ i, ∀ key ∉ deltaFields, textOf (block acc i) key = textOf (started seen i) key

section Blocks

variable {seen events : List Json} {acc acc' : AnthropicStreamAccumulator} {chunk : Json}

theorem touched_concat (seen : List Json) (chunk : Json) (i : ℕ) :
    i ∈ ((seen ++ [chunk]).filter touchesBlock).map index ↔
      i ∈ (seen.filter touchesBlock).map index ∨ touchesBlock chunk = true ∧ i = index chunk := by
  rw [List.filter_append, List.map_append, List.mem_append]
  cases h : touchesBlock chunk <;> simp [h]

theorem started_concat_of_not (h : startsBlock i chunk = false) :
    started (seen ++ [chunk]) i = started seen i := by
  rw [started, lastStart_concat, if_neg (by simp [h]), started]

theorem Blocks.same (h : Blocks seen acc) (hstart : isType chunk "content_block_start" = false)
    (htouch : touchesBlock chunk = false) (hblocks : acc'.contentBlocks = acc.contentBlocks) :
    Blocks (seen ++ [chunk]) acc' where
  nodup := hblocks ▸ h.nodup
  mem_iff i := by
    rw [hblocks, h.mem_iff, touched_concat, htouch]
    simp
  fields i key hkey := by
    rw [started_concat_of_not (by rw [startsBlock, hstart, Bool.false_and]), ← h.fields i key hkey,
      block, block, hblocks]

theorem Blocks.insert (h : Blocks seen acc) {v : Json} (htouch : touchesBlock chunk = true)
    (hv : ∀ key ∉ deltaFields,
      textOf v key = textOf (started (seen ++ [chunk]) (index chunk)) key) :
    Blocks (seen ++ [chunk]) (acc.insertBlock (index chunk) v) where
  nodup := by
    rw [insertBlock, List.map_cons, List.nodup_cons]
    refine ⟨fun hmem ↦ ?_, h.nodup.sublist (List.filter_sublist.map _)⟩
    obtain ⟨b, hb, heq⟩ := List.mem_map.mp hmem
    have hne : b.1 ≠ index chunk := by simpa using (List.mem_filter.mp hb).2
    exact hne heq
  mem_iff i := by
    rw [insertBlock, List.map_cons, List.mem_cons, touched_concat, ← h.mem_iff]
    have hfilter : i ∈ (acc.contentBlocks.filter (·.1 ≠ index chunk)).map Prod.fst ↔
        i ∈ acc.contentBlocks.map Prod.fst ∧ i ≠ index chunk := by
      simp only [List.mem_map, List.mem_filter, decide_eq_true_eq]
      constructor
      · rintro ⟨b, ⟨hb, hne⟩, rfl⟩
        exact ⟨⟨b, hb, rfl⟩, hne⟩
      · rintro ⟨⟨b, hb, rfl⟩, hne⟩
        exact ⟨b, ⟨hb, hne⟩, rfl⟩
    rw [hfilter]
    by_cases hi : i = index chunk <;> simp [hi, htouch]
  fields i key hkey := by
    rw [block_insertBlock]
    by_cases hi : i = index chunk
    · rw [if_pos hi, hi, hv key hkey]
    · have hnot : startsBlock i chunk = false := by
        rw [startsBlock, beq_eq_false_iff_ne.mpr (Ne.symm hi), Bool.and_false]
      rw [if_neg hi, started_concat_of_not hnot, h.fields i key hkey]

theorem mem_deltaFields {kind k : String} {append : Bool}
    (h : deltaField kind = some (k, append)) : k ∈ deltaFields := by
  simp only [deltaField, List.lookup_cons, List.lookup_nil] at h
  split at h
  · obtain rfl := congrArg Prod.fst (Option.some.inj h)
    decide
  split at h
  · obtain rfl := congrArg Prod.fst (Option.some.inj h)
    decide
  split at h
  · obtain rfl := congrArg Prod.fst (Option.some.inj h)
    decide
  split at h
  · obtain rfl := congrArg Prod.fst (Option.some.inj h)
    decide
  · cases h

theorem Blocks.handleContentBlockDelta (h : Blocks seen acc)
    (htype : isType chunk "content_block_delta" = true)
    (hacc : acc.handleContentBlockDelta chunk = some acc') : Blocks (seen ++ [chunk]) acc' := by
  have hstart := isType_unique htype "content_block_start" (by decide)
  have hnot : startsBlock (index chunk) chunk = false := by rw [startsBlock, hstart, Bool.false_and]
  cases hdelta : chunk.get "delta" with
  | none =>
    have heq : acc.handleContentBlockDelta chunk = some acc := by
      rw [AnthropicStreamAccumulator.handleContentBlockDelta, hdelta]
    obtain rfl := Option.some.inj (heq.symm.trans hacc)
    refine h.same hstart ?_ rfl
    rw [touchesBlock, hstart, hdelta, Option.isSome_none, Bool.and_false, Bool.or_false]
  | some delta =>
    have htouch : touchesBlock chunk = true := by
      rw [touchesBlock, htype, hdelta, Option.isSome_some, Bool.and_true, Bool.or_true]
    cases htext : deltaText chunk with
    | none =>
      rw [handleContentBlockDelta_no_text acc hdelta htext] at hacc
      obtain rfl := Option.some.inj hacc
      refine h.insert htouch fun key hkey ↦ ?_
      rw [started_concat_of_not hnot, h.fields _ key hkey]
    | some r =>
      obtain ⟨k, append, text⟩ := r
      rw [handleContentBlockDelta_some acc htext] at hacc
      obtain ⟨v, hset, rfl⟩ := Option.map_eq_some_iff.mp hacc
      refine h.insert htouch fun key hkey ↦ ?_
      obtain ⟨delta', -, hfield⟩ := Option.bind_eq_some_iff.mp htext
      obtain ⟨⟨k', append'⟩, hlookup, hmap⟩ := Option.bind_eq_some_iff.mp hfield
      obtain ⟨text', -, heq⟩ := Option.map_eq_some_iff.mp hmap
      obtain ⟨rfl, rfl, rfl⟩ : k' = k ∧ append' = append ∧ text' = text := by simpa using heq
      have hne : key ≠ k' := fun hk ↦ hkey (hk ▸ mem_deltaFields hlookup)
      rw [textOf_setField hset, if_neg hne, started_concat_of_not hnot, h.fields _ key hkey]

theorem Blocks.handle (h : Blocks seen acc) (hacc : acc.handle chunk = some acc') :
    Blocks (seen ++ [chunk]) acc' := by
  rw [AnthropicStreamAccumulator.handle] at hacc
  by_cases hmessage : isType chunk "message_start" = true
  · have hstart := isType_unique hmessage "content_block_start" (by decide)
    have hdelta := isType_unique hmessage "content_block_delta" (by decide)
    rw [if_pos hmessage] at hacc
    obtain rfl := Option.some.inj hacc
    refine h.same hstart (touchesBlock_of_not hstart hdelta) ?_
    rw [handleMessageStart]
    split <;> rfl
  rw [if_neg hmessage] at hacc
  by_cases hstart : isType chunk "content_block_start" = true
  · rw [if_pos hstart] at hacc
    obtain rfl := Option.some.inj hacc
    refine h.insert (by rw [touchesBlock, hstart, Bool.true_or]) fun key _ ↦ ?_
    rw [started, lastStart_concat, startsBlock, hstart, beq_self_eq_true, Bool.and_true, if_pos rfl,
      Option.getD_some]
  rw [if_neg hstart] at hacc
  by_cases hdelta : isType chunk "content_block_delta" = true
  · rw [if_pos hdelta] at hacc
    exact h.handleContentBlockDelta hdelta hacc
  rw [if_neg hdelta] at hacc
  rw [Bool.not_eq_true] at hstart hdelta
  split at hacc
  · obtain rfl := Option.some.inj hacc
    exact h.same hstart (touchesBlock_of_not hstart hdelta) rfl
  · obtain rfl := Option.some.inj hacc
    exact h.same hstart (touchesBlock_of_not hstart hdelta) rfl

theorem lookup_of_mem {rows : List (ℕ × Json)} (hnodup : (rows.map Prod.fst).Nodup) {i : ℕ}
    {b : Json} (hmem : (i, b) ∈ rows) : rows.lookup i = some b := by
  induction rows with
  | nil => cases hmem
  | cons row rows ih =>
    obtain ⟨j, c⟩ := row
    rw [List.map_cons, List.nodup_cons] at hnodup
    rcases List.mem_cons.mp hmem with heq | hmem
    · obtain ⟨rfl, rfl⟩ := Prod.mk.inj heq
      exact List.lookup_cons_self
    · have hne : i ≠ j := fun hij ↦ hnodup.1 (List.mem_map.mpr ⟨(i, b), hmem, hij⟩)
      rw [List.lookup_cons, beq_eq_false_iff_ne.mpr hne]
      exact ih hnodup.2 hmem

theorem Blocks.whole (h : Blocks events acc)
    (htext : ∀ i, ∀ key ∈ appendedFields, blockText (block acc i) key = expectedText events i key) :
    List.Forall₂ (WholeBlock events) (touchedIndices events)
      ((acc.contentBlocks.mergeSort fun a b ↦ a.1 ≤ b.1).map Prod.snd) := by
  have hindices : (acc.contentBlocks.mergeSort fun a b ↦ a.1 ≤ b.1).map Prod.fst =
      touchedIndices events := map_mergeSort_index h.nodup h.mem_iff
  rw [← hindices, List.forall₂_map_left_iff, List.forall₂_map_right_iff, List.forall₂_same]
  intro b hb
  have hmem : (b.1, b.2) ∈ acc.contentBlocks := (List.mergeSort_perm _ _).mem_iff.mp hb
  have hblock : block acc b.1 = b.2 := by rw [block, lookup_of_mem h.nodup hmem, Option.getD_some]
  rw [← hblock]
  exact ⟨h.fields _ _ (by decide), h.fields _ _ (by decide), htext _ _ (by decide),
    htext _ _ (by decide)⟩

end Blocks

section Agreement

variable {events : List Json} {body body' b b' : Json} {i : ℕ}

variable (serdeFromStr : String → Option Json)

end Agreement

end QueQiao.StreamLoggers
