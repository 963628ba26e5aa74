import QueQiao.Handlers.ModelEcho
import QueQiao.Models.JsonText

namespace QueQiao.StreamHandler

open JsonText Lib.Delimiters ModelEcho

theorem dropWhile_blanks (ws : List Blank) {c : Char} (hc : isWhiteSpace c = false)
    (s : List Char) : (blanks ws ++ c :: s).dropWhile isWhiteSpace = c :: s := by
  induction ws with
  | nil => simp [blanks, hc]
  | cons w ws ih =>
    have hw : isWhiteSpace w.char = true := by cases w <;> decide
    rw [blanks, List.map_cons, List.cons_append, List.dropWhile_cons, if_pos hw]
    exact ih

def emptyUnderKey (afterKey beforeValue inner : List Blank) (post : List Char) : List Char :=
  blanks afterKey ++ ':' :: (blanks beforeValue ++ '[' :: (blanks inner ++ ']' :: post))

/-- Where the first occurrence of the key starts before the one that is known, it also ends before
it: an end of the key that is its start has one character, and `s` stands before that. -/
theorem choicesKey_apart {u v : List Char} {i : ℕ} (hlast : u.getLast? ≠ some 's')
    (hpre : choicesKey <+: (u ++ (choicesKey ++ v)).drop i) (hi : i < u.length) :
    i + choicesKey.length ≤ u.length := by
  by_contra hlt
  rw [List.drop_append_of_le_length hi.le] at hpre
  have hlength : (u.drop i).length < choicesKey.length := by
    rw [List.length_drop]
    omega
  obtain ⟨hstart, hborder⟩ := border_of_prefix hpre hlength
  have hpos : 0 < (u.drop i).length := by
    rw [List.length_drop]
    omega
  have hone : (u.drop i).length = 8 := by
    have hall : ∀ k < choicesKey.length, 0 < k → choicesKey.drop k <+: choicesKey → k = 8 := by
      decide
    exact hall _ hlength hpos hborder
  have htake : u.drop i = choicesKey.take 8 := by
    rw [← hone]
    exact List.prefix_iff_eq_take.mp hstart
  have hu : u = u.take i ++ choicesKey.take 8 := by rw [← htake, List.take_append_drop]
  rw [hu, List.getLast?_append] at hlast
  exact hlast rfl

theorem hasEmptyChoicesMarker_of_empty {u : List Char} (hlast : u.getLast? ≠ some 's')
    (afterKey beforeValue inner : List Blank) (post : List Char) :
    hasEmptyChoicesMarker (u ++ (choicesKey ++ emptyUnderKey afterKey beforeValue inner post)) =
      true := by
  induction hlength : u.length using Nat.strong_induction_on generalizing u with
  | h n ih =>
    obtain ⟨i, hi, hfind⟩ :=
      findSub_le choicesKey u (emptyUnderKey afterKey beforeValue inner post)
    rw [hasEmptyChoicesMarker]
    split
    · rename_i hnone
      rw [hfind] at hnone
      cases hnone
    · rename_i pos hpos
      obtain rfl := Option.some.inj (hfind.symm.trans hpos)
      rcases eq_or_lt_of_le hi with heq | hlt
      · -- the key that is known
        have hdrop : (u ++ (choicesKey ++ emptyUnderKey afterKey beforeValue inner post)).drop
            (i + choicesKey.length) = emptyUnderKey afterKey beforeValue inner post := by
          rw [heq, ← List.drop_drop, List.drop_left, List.drop_left]
        simp only [hdrop]
        simp only [emptyUnderKey, dropWhile_blanks _ (c := ':') (by decide),
          dropWhile_blanks _ (c := '[') (by decide), dropWhile_blanks _ (c := ']') (by decide)]
        rfl
      · -- an earlier one
        have hapart := choicesKey_apart hlast (findSub_eq_some_iff.mp hfind).2.1 hlt
        have hdrop : (u ++ (choicesKey ++ emptyUnderKey afterKey beforeValue inner post)).drop
            (i + choicesKey.length) = u.drop (i + choicesKey.length) ++
              (choicesKey ++ emptyUnderKey afterKey beforeValue inner post) :=
          List.drop_append_of_le_length hapart
        have hrest : (u.drop (i + choicesKey.length)).getLast? ≠ some 's' := by
          rw [List.getLast?_drop]
          split
          · simp
          · exact hlast
        have hshort : (u.drop (i + choicesKey.length)).length < n := by
          have hkey : 0 < choicesKey.length := by decide
          rw [List.length_drop]
          omega
        simp only [hdrop, ih _ hshort hrest rfl, Bool.or_true]

/-- The keys `choices` and `model` are spelled without escapes. -/
def PlainKeys (t : Document) : Prop :=
  ∀ m ∈ t.members, m.key.value = "choices" ∨ m.key.value = "model" → m.key.Unescaped

variable {num : NumberText → ℚ} {t : Document}

theorem hasEmptyChoicesMarker_of_value (hplain : PlainKeys t)
    (h : (t.value.toJson num).get "choices" = some (.arr [])) :
    hasEmptyChoicesMarker t.text = true := by
  obtain ⟨m, hm, hkey, hvalue⟩ := Document.exists_member h
  obtain ⟨inner, hinner⟩ := Value.eq_emptyArr hvalue
  obtain ⟨pre, c, afterKey, beforeValue, post, hc, htext⟩ := Document.text_of_mem hm
  have hkeytext : m.key.text = choicesKey := by
    rw [StringText.text_of_unescaped (hplain m hm (.inl hkey)), hkey]
    decide
  have hsplit : t.text = (pre ++ [c]) ++ (choicesKey ++
      emptyUnderKey afterKey beforeValue inner post) := by
    rw [htext, hkeytext, hinner, Value.text, emptyUnderKey]
    simp
  rw [hsplit]
  refine hasEmptyChoicesMarker_of_empty ?_ afterKey beforeValue inner post
  rw [List.getLast?_concat]
  intro heq
  rw [Option.some.inj heq] at hc
  exact absurd hc (by decide)

theorem hasModelFieldMarker_of_value (hplain : PlainKeys t)
    (h : ((t.value.toJson num).get "model").isSome = true) :
    hasModelFieldMarker t.text = true := by
  obtain ⟨v, hv⟩ := Option.isSome_iff_exists.mp h
  obtain ⟨m, hm, hkey, -⟩ := Document.exists_member hv
  obtain ⟨pre, c, afterKey, beforeValue, post, -, htext⟩ := Document.text_of_mem hm
  have hkeytext : m.key.text = "\"model\"".toList := by
    rw [StringText.text_of_unescaped (hplain m hm (.inr hkey)), hkey]
    decide
  rw [hkeytext] at htext
  have hsplit : t.text = (pre ++ [c]) ++ ("\"model\"".toList ++ (blanks afterKey ++ ':' ::
      (blanks beforeValue ++ (m.value.text ++ post)))) := by
    rw [htext]
    simp
  obtain ⟨i, -, hfind⟩ := findSub_le "\"model\"".toList (pre ++ [c])
    (blanks afterKey ++ ':' :: (blanks beforeValue ++ (m.value.text ++ post)))
  rw [hasModelFieldMarker, hsplit, hfind]
  rfl

theorem text_ne_done (t : Document) : t.text ≠ "[DONE]".toList := by
  obtain ⟨before, value, after⟩ := t
  intro h
  rw [Document.text] at h
  cases before with
  | cons w ws => cases w <;> exact absurd (List.cons.inj h).1 (by decide)
  | nil =>
    replace h : value.text ++ blanks after = '[' :: "DONE]".toList := h
    cases value with
    | null => exact absurd (List.cons.inj h).1 (by decide)
    | bool b => cases b <;> exact absurd (List.cons.inj h).1 (by decide)
    | num n =>
      obtain ⟨c, rest, htext, hc⟩ := n.head_text
      rw [Value.text, htext] at h
      obtain ⟨rfl, -⟩ := List.cons.inj h
      exact absurd hc (by decide)
    | emptyArr inner =>
      cases inner with
      | nil => exact absurd (List.cons.inj (List.cons.inj h).2).1 (by decide)
      | cons w ws => cases w <;> exact absurd (List.cons.inj (List.cons.inj h).2).1 (by decide)
    | arr items =>
      obtain ⟨c, rest, htext, hc⟩ := items.head_text
      rw [Value.text, htext] at h
      obtain ⟨rfl, -⟩ := List.cons.inj (List.cons.inj h).2
      exact absurd hc (by decide)
    | str | emptyObj | obj => exact absurd (List.cons.inj h).1 (by decide)

variable {texts : Texts} {cfg : StreamConfig}

theorem ensureNonEmptyChoices_eq_self {isChat : Bool} {v : Json}
    (h : v.get "choices" ≠ some (.arr [])) : ensureNonEmptyChoices isChat v = v := by
  cases v with
  | obj fields =>
    rw [ensureNonEmptyChoices]
    split
    · rename_i hempty
      exact absurd hempty h
    · rfl
  | null | bool | num | str | arr => rfl

theorem rewriteChunkModel_eq_self {inboundModel : String} {v : Json}
    (h : (v.get "model").isSome = false) : rewriteChunkModel inboundModel v = v := by
  cases v with
  | obj fields =>
    have hnone : ¬(Json.Fields.get fields "model").isSome = true := by
      rw [show (Json.Fields.get fields "model").isSome = false from h]
      exact Bool.false_ne_true
    rw [rewriteChunkModel, if_neg hnone]
  | null | bool | num | str | arr => rfl

theorem onRoundtrip_value (hround : cfg.needsJsonRoundtrip = false) {data : String} {v : Json}
    (hread : texts.simdFromStr data = .ok v) (s : StreamState) :
    (onRoundtrip texts cfg s data).1 =
      [.chunk (echoModel cfg (ensureNonEmptyChoices cfg.isChat v))] := by
  rw [StreamConfig.needsJsonRoundtrip, Bool.or_eq_false_iff] at hround
  have hprefix : ¬((!s.prefixApplied && decide (cfg.specialPrefix ≠ "")) = true) := by
    rw [hround.2]
    simp
  have happly : ¬cfg.applyThinking = true := by
    rw [hround.1]
    exact Bool.false_ne_true
  rw [onRoundtrip, hread]
  simp only [applyPrefix, if_neg hprefix, transformChunk, if_neg happly]

/-- The value that the client reads in the only event that is forwarded. -/
def Forwards (texts : Texts) (events : List SseEvent) (v : Json) : Prop :=
  ∃ e, events = [e] ∧ readChunk (simdValue texts) e = some v

/-- The fast branches forward the value that the round trip forwards. -/
theorem fast_forwards_roundtrip (hround : cfg.needsJsonRoundtrip = false) (hplain : PlainKeys t)
    {event : UpstreamEvent} (hdata : event.data = String.ofList t.text)
    (hread : texts.simdFromStr event.data = .ok (t.value.toJson num))
    (hping : isPing texts cfg (.ok event) = false) (s : StreamState) :
    ∃ v, Forwards texts (onEvent texts cfg s event).1 v ∧
      Forwards texts (onRoundtrip texts cfg s event.data).1 v := by
  have htext : event.data.toList = t.text := by rw [hdata, String.toList_ofList]
  have hdone : event.data ≠ "[DONE]" := by
    intro heq
    rw [heq] at htext
    exact text_ne_done t htext.symm
  have hvalue : simdValue texts event.data = some (t.value.toJson num) := by
    rw [simdValue, hread]
    rfl
  have hnot : ¬(cfg.isChat && isChatCompletionPing texts event) = true := by
    simpa [isPing, hdone] using hping
  have hround' : ¬cfg.needsJsonRoundtrip = true := by
    rw [hround]
    exact Bool.false_ne_true
  refine ⟨echoModel cfg (ensureNonEmptyChoices cfg.isChat (t.value.toJson num)), ?_,
    ⟨_, onRoundtrip_value hround hread s, rfl⟩⟩
  rw [onEvent, if_neg hdone, if_neg hnot, if_neg hround', htext]
  by_cases hchoices : hasEmptyChoicesMarker t.text = true
  · rw [if_pos hchoices, onPatched, hread]
    exact ⟨_, rfl, rfl⟩
  rw [if_neg hchoices,
    ensureNonEmptyChoices_eq_self (mt (hasEmptyChoicesMarker_of_value hplain) hchoices)]
  by_cases hmodel : (cfg.echoInboundModel && hasModelFieldMarker t.text) = true
  · rw [if_pos hmodel, onPatched, hread]
    refine ⟨_, rfl, ?_⟩
    rw [readChunk, echoModel, if_pos (Bool.and_eq_true_iff.mp hmodel).1]
  · rw [if_neg hmodel]
    refine ⟨_, rfl, ?_⟩
    rw [readChunk, hvalue, echoModel]
    split
    · rename_i hecho
      have hnone : ((t.value.toJson num).get "model").isSome = false := by
        rw [hecho, Bool.true_and] at hmodel
        exact Bool.eq_false_iff.mpr (mt (hasModelFieldMarker_of_value hplain) hmodel)
      rw [rewriteChunkModel_eq_self hnone]
    · rfl

def usageDocument : Document where
  before := []
  value := .obj <|
    .cons (.mk [] (StringText.ofPlain "choices") [] [] (.emptyArr [.space]) []) <|
      .one (.mk [] (StringText.ofPlain "model") [] [] (.str (StringText.ofPlain "x")) [])
  after := []

def usageEvent : UpstreamEvent := ⟨"message", String.ofList usageDocument.text⟩

def usageTexts : Texts := tableTexts [(usageEvent.data, usageDocument.value.toJson fun _ ↦ 0)]

def echoingChat : StreamConfig := { plainChat with echoInboundModel := true }

theorem fast_forwards_roundtrip_usage :
    ∃ v, Forwards usageTexts (onEvent usageTexts echoingChat (.init echoingChat) usageEvent).1 v ∧
      Forwards usageTexts
        (onRoundtrip usageTexts echoingChat (.init echoingChat) usageEvent.data).1 v := by
  have hplain : PlainKeys usageDocument := by
    intro m hm _
    rcases List.mem_cons.mp hm with rfl | hm
    · decide
    · obtain rfl := List.mem_singleton.mp hm
      decide
  have hread : usageTexts.simdFromStr usageEvent.data =
      .ok (usageDocument.value.toJson fun _ ↦ 0) := by
    simp only [usageTexts, tableTexts, List.lookup_cons_self]
  exact fast_forwards_roundtrip (by decide) hplain rfl hread (by decide +kernel)
    (.init echoingChat)

end QueQiao.StreamHandler
