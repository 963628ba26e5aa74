import QueQiao.Handlers.StreamFlush
import QueQiao.Lib.Interleave

namespace QueQiao.StreamHandler

open ThinkingTransformer ThinkingStreamTransformer Lib.Delimiters Lib.Interleave

def choicePointer : List Json.Token := [("choices", none), ("0", some 0)]

def choiceIndex (value : Json) : Option ℚ :=
  match value.pointer (choicePointer ++ [("index", none)]) with
  | some (.num n) => some n
  | _ => none

def itemChoice (texts : Texts) (cfg : StreamConfig) : Item → Option ℚ
  | .ok event =>
    if event.data = "[DONE]" || (cfg.isChat && isChatCompletionPing texts event) then none
    else
      match texts.simdFromStr event.data with
      | .ok value => choiceIndex value
      | .error _ => none
  | .error _ => none

def SseEvent.value (texts : Texts) : SseEvent → Option Json
  | .chunk value => some value
  | .raw data => (texts.simdFromStr data).toOption
  | .flush delta => some (flushChunk delta)
  | .error model message => some (errorChunk model message)
  | .done => none
  | .comment _ => none

def SseEvent.choice (texts : Texts) (e : SseEvent) : Option ℚ := (e.value texts).bind choiceIndex

/-- Not a part of another choice than `i`. -/
def ofChoice (i : ℚ) (choice : Option ℚ) : Bool := choice.all (· = i)

/-- The part of the stream that a client of choice `i` reads. -/
def choiceStream (texts : Texts) (i : ℚ) (events : List SseEvent) : List SseEvent :=
  events.filter fun e ↦ ofChoice i (e.choice texts)

def choiceItems (texts : Texts) (cfg : StreamConfig) (i : ℚ) (items : List Item) : List Item :=
  items.filter fun item ↦ ofChoice i (itemChoice texts cfg item)

/-- What `transform_delta` reads of its state for a delta is the same in both. -/
def sameForDelta (fields : Json.Fields) (t t' : ThinkingStreamTransformer) : Bool :=
  let reasons := (fieldReasoning fields).isSome
  let answers := (contentOf fields).any (· ≠ "")
  match t.target with
  | .passthrough => true
  | .reasoning | .reasoningContent =>
    reasons || !answers || (t.phase = t'.phase && t.carry = t'.carry)
  | .thinkTag =>
    (!reasons || t.thinkOpen = t'.thinkOpen) &&
      (!answers || ((t.thinkOpen || reasons) && !t.thinkClosed) =
        ((t'.thinkOpen || reasons) && !t'.thinkClosed))

/-- What `finalize` reads of its state is the same in both. -/
def sameForEnd (t t' : ThinkingStreamTransformer) : Bool :=
  match t.target with
  | .passthrough => true
  | .reasoning | .reasoningContent =>
    t.carry = t'.carry && (t.carry = [] || t.phase = t'.phase)
  | .thinkTag => (t.thinkOpen && !t.thinkClosed) = (t'.thinkOpen && !t'.thinkClosed)

def takesPrefix (cfg : StreamConfig) (value : Json) : Bool :=
  cfg.specialPrefix ≠ "" && ((value.pointer cfg.contentPointer).bind Json.asStr).any (· ≠ "")

def sameForChunk (cfg : StreamConfig) (value : Json) (s s' : StreamState) : Bool :=
  (!takesPrefix cfg value || s.prefixApplied = s'.prefixApplied) &&
    match value.pointer deltaPointer with
    | some (.obj fields) => sameForDelta fields s.transformer s'.transformer
    | _ => true

/-- What the conversion of an item for choice `i` reads of its state is the same in both. What
`finalize` gives is sent as a part of choice 0. -/
def sameForItem (texts : Texts) (cfg : StreamConfig) (i : ℚ) (item : Item) (s s' : StreamState) :
    Bool :=
  match item with
  | .ok event =>
    if event.data = "[DONE]" then i ≠ 0 || sameForEnd s.transformer s'.transformer
    else if cfg.isChat && isChatCompletionPing texts event then true
    else
      match texts.simdFromStr event.data with
      | .ok value => sameForChunk cfg value s s'
      | .error _ => true
  | .error _ => true

/-- The chunks of choice `i` find, in what they read of it, the state that the chunks of choice `i`
alone would have left. -/
def undisturbed (texts : Texts) (cfg : StreamConfig) (i : ℚ) (items : List Item) : Bool :=
  aligned (onItem texts cfg) (fun item ↦ ofChoice i (itemChoice texts cfg item))
    (sameForItem texts cfg i) (.init cfg) (.init cfg) (terminateOnError items)

section Transformer

variable {t t' : ThinkingStreamTransformer}

def Idle (t : ThinkingStreamTransformer) : Prop :=
  scan thinkDelims t.phase t.carry = ⟨fun _ ↦ [], t.phase, t.carry⟩

theorem idle_of_carry (h : t.carry = []) : Idle t := by
  rw [Idle, h, scan_nil]

theorem parseContentSource_scan (t : ThinkingStreamTransformer) (fragment : String) :
    let s := scan thinkDelims t.phase (t.carry ++ fragment.toList)
    t.parseContentSource fragment =
      ((String.ofList (s.out .content), String.ofList (s.out .inThink)),
        { t with phase := s.phase, carry := s.carry }) := by
  simp only [parseContentSource, parseLoop_eq, List.nil_append]

theorem idle_parseContentSource (t : ThinkingStreamTransformer) (fragment : String) :
    Idle (t.parseContentSource fragment).2 := by
  rw [parseContentSource_scan]
  exact scan_carry thinkDelims t.phase (t.carry ++ fragment.toList)

theorem idle_feed (h : Idle t) (f : Fed) : Idle (feed t f) := by
  cases f with
  | done =>
    simp only [feed, finalize]
    split
    · exact h
    · split <;> exact h
    all_goals
      split
      · exact h
      · split <;> exact idle_of_carry rfl
  | delta delta =>
    cases delta with
    | obj fields =>
      simp only [feed, transformDelta, transformDeltaFields]
      split
      · exact h
      · split
        · exact h
        · split
          · exact h
          · exact idle_parseContentSource t _
      · split
        · exact h
        · split
          · exact h
          · exact idle_parseContentSource t _
      · exact h
    | _ => exact h

theorem parseContentSource_same (h : Idle t) (h' : Idle t') (content : String)
    (hsame : content ≠ "" → t.phase = t'.phase ∧ t.carry = t'.carry) :
    (t.parseContentSource content).1 = (t'.parseContentSource content).1 := by
  by_cases hempty : content = ""
  · rw [hempty, parseContentSource_scan, parseContentSource_scan]
    simp only [String.toList_empty, List.append_nil]
    rw [Idle] at h h'
    rw [h, h']
  · obtain ⟨hphase, hcarry⟩ := hsame hempty
    simp only [parseContentSource_scan, hphase, hcarry]

theorem transformDeltaFields_text (htarget : t.target = .reasoning ∨ t.target = .reasoningContent)
    (fields : Json.Fields) :
    (t.transformDeltaFields fields).1 =
      match fieldReasoning fields, contentOf fields with
      | some val, _ =>
        Json.Fields.insert (targetField t.target) (.str val) (removeReasoning fields)
      | none, none => fields
      | none, some content =>
        let out := (t.parseContentSource content).1
        let fields := Json.Fields.insert "content" (.str out.1) fields
        if out.2 = "" then fields
        else Json.Fields.insert (targetField t.target) (.str out.2) fields := by
  have hown : (nonEmptyField fields "reasoning").or (nonEmptyField fields "reasoning_content") =
      fieldReasoning fields := rfl
  have hcontent : (Json.Fields.get fields "content").bind Json.asStr = contentOf fields := rfl
  rcases htarget with ht | ht
  all_goals
    simp only [transformDeltaFields, ht, hown, hcontent]
    cases fieldReasoning fields with
    | some val => rfl
    | none =>
      cases contentOf fields with
      | none => rfl
      | some content => rfl

theorem transformDeltaFields_same (htarget : t.target = t'.target) (h : Idle t) (h' : Idle t')
    {fields : Json.Fields} (hsame : sameForDelta fields t t' = true) :
    (t.transformDeltaFields fields).1 = (t'.transformDeltaFields fields).1 := by
  have htext : t.target = .reasoning ∨ t.target = .reasoningContent →
      (t.transformDeltaFields fields).1 = (t'.transformDeltaFields fields).1 := by
    intro hformat
    rw [transformDeltaFields_text hformat, transformDeltaFields_text (htarget ▸ hformat), htarget]
    have hread : fieldReasoning fields = none → ∀ content, contentOf fields = some content →
        content ≠ "" → t.phase = t'.phase ∧ t.carry = t'.carry := by
      intro hreasons content hcontent hne
      rcases hformat with ht | ht <;>
        simpa [sameForDelta, ht, hreasons, hcontent, hne] using hsame
    cases hreasons : fieldReasoning fields with
    | some val => rfl
    | none =>
      cases hcontent : contentOf fields with
      | none => rfl
      | some content =>
        simp only [parseContentSource_same h h' content (hread hreasons content hcontent)]
  cases hformat : t.target with
  | passthrough =>
    simp only [transformDeltaFields, hformat, ← htarget]
  | reasoning => exact htext (.inl hformat)
  | reasoningContent => exact htext (.inr hformat)
  | thinkTag =>
    have hformat' : t'.target = .thinkTag := htarget ▸ hformat
    simp only [sameForDelta, hformat, Bool.and_eq_true, Bool.or_eq_true, Bool.not_eq_true',
      decide_eq_true_eq] at hsame
    obtain ⟨hopen, hclose⟩ := hsame
    have hopening : ((fieldReasoning fields).isSome && !t.thinkOpen) =
        ((fieldReasoning fields).isSome && !t'.thinkOpen) := by
      rcases hopen with hnone | hsame
      · rw [hnone, Bool.false_and, Bool.false_and]
      · rw [hsame]
    have hclosing : ((contentOf fields).any (· ≠ "") &&
          (t.thinkOpen || (fieldReasoning fields).isSome) && !t.thinkClosed) =
        ((contentOf fields).any (· ≠ "") &&
          (t'.thinkOpen || (fieldReasoning fields).isSome) && !t'.thinkClosed) := by
      rcases hclose with hnone | hsame
      · simp only [hnone, Bool.false_and]
      · rw [Bool.and_assoc, Bool.and_assoc, hsame]
    have hcontent : (Json.Fields.get fields "content").bind Json.asStr = contentOf fields := rfl
    simp only [transformDeltaFields, hformat, hformat', hcontent, hopening, hclosing]

theorem finalize_same (htarget : t.target = t'.target) (hsame : sameForEnd t t' = true) :
    t.finalize.1 = t'.finalize.1 := by
  have htext : t.target = .reasoning ∨ t.target = .reasoningContent →
      t.finalize.1 = t'.finalize.1 := by
    intro hformat
    have hread : t.carry = t'.carry ∧ (t.carry = [] ∨ t.phase = t'.phase) := by
      rcases hformat with ht | ht <;> simpa [sameForEnd, ht] using hsame
    obtain ⟨hcarry, hempty | hphase⟩ := hread
    · have hempty' : t'.carry = [] := hcarry ▸ hempty
      rw [(finalize_eq_none_iff_carry hformat).mpr hempty,
        (finalize_eq_none_iff_carry (htarget ▸ hformat)).mpr hempty']
    · rcases hformat with ht | ht
      all_goals
        have ht' := htarget ▸ ht
        simp only [finalize, ht, ht', hcarry, hphase]
        split
        · rfl
        · split <;> rfl
  cases hformat : t.target with
  | passthrough => simp only [finalize, hformat, ← htarget]
  | reasoning => exact htext (.inl hformat)
  | reasoningContent => exact htext (.inr hformat)
  | thinkTag =>
    have hformat' : t'.target = .thinkTag := htarget ▸ hformat
    simp only [sameForEnd, hformat, decide_eq_true_eq] at hsame
    simp only [finalize, hformat, hformat', hsame]
    split <;> rfl

end Transformer

section Index

variable {texts : Texts} {cfg : StreamConfig} {value : Json} {i j : ℚ}

theorem choiceIndex_congr {w : Json}
    (h : w.pointer (choicePointer ++ [("index", none)]) =
      value.pointer (choicePointer ++ [("index", none)])) : choiceIndex w = choiceIndex value := by
  rw [choiceIndex, h, choiceIndex]

theorem choiceIndex_applyPrefix (value : Json) (applied : Bool) :
    choiceIndex (applyPrefix cfg value applied).1 = choiceIndex value := by
  have hkeep : ∀ f, choiceIndex (value.pointerModify f cfg.contentPointer) = choiceIndex value := by
    intro f
    refine choiceIndex_congr ?_
    cases hchat : cfg.isChat with
    | true =>
      simp only [StreamConfig.contentPointer, hchat, ↓reduceIte]
      exact Json.pointer_pointerModify_ne (by decide) f choicePointer [] [("content", none)] value
    | false =>
      simp only [StreamConfig.contentPointer, hchat]
      exact Json.pointer_pointerModify_ne (by decide) f choicePointer [] [] value
  unfold applyPrefix
  split
  · split
    · split
      · rfl
      · exact hkeep _
    · rfl
  · rfl

theorem choiceIndex_transformChunk (value : Json) (t : ThinkingStreamTransformer) :
    choiceIndex (transformChunk cfg value t).1 = choiceIndex value := by
  unfold transformChunk
  split
  · split
    · refine choiceIndex_congr ?_
      exact Json.pointer_pointerModify_ne (by decide) _ choicePointer [] [] value
    · rfl
  · rfl

theorem choiceIndex_echoModel (value : Json) :
    choiceIndex (echoModel cfg value) = choiceIndex value :=
  choiceIndex_congr (pointer_echoModel _ value)

theorem ensureNonEmptyChoices_of_choice (h : choiceIndex value = some j) (isChat : Bool) :
    ensureNonEmptyChoices isChat value = value := by
  cases value with
  | obj fields =>
    simp only [ensureNonEmptyChoices]
    split
    · rename_i hget
      simp [choiceIndex, choicePointer, Json.pointer, hget] at h
    · rfl
  | _ => rfl

theorem choiceIndex_patched (h : choiceIndex value = some j) (isChat : Bool) :
    choiceIndex (echoModel cfg (ensureNonEmptyChoices isChat value)) = some j := by
  rw [choiceIndex_echoModel, ensureNonEmptyChoices_of_choice h, h]

theorem onItem_choice {item : Item} (h : itemChoice texts cfg item = some j) (s : StreamState) :
    ∀ e ∈ (onItem texts cfg s item).1, e.choice texts = some j := by
  cases item with
  | error => cases h
  | ok event =>
    simp only [itemChoice, Bool.or_eq_true, decide_eq_true_eq] at h
    split_ifs at h with hskip
    rw [not_or] at hskip
    cases hparse : texts.simdFromStr event.data with
    | error => simp [hparse] at h
    | ok value =>
      simp only [hparse] at h
      rw [onItem, onEvent, if_neg hskip.1, if_neg hskip.2]
      have hpatched : ∀ patch : Json → Json, choiceIndex (patch value) = some j →
          ∀ e ∈ (onPatched texts patch s event.data).1, e.choice texts = some j := by
        intro patch hpatch e he
        simp only [onPatched, hparse, List.mem_singleton] at he
        rw [he]
        exact hpatch
      split_ifs
      · intro e he
        simp only [onRoundtrip, hparse, List.mem_singleton] at he
        rw [he]
        refine choiceIndex_patched ?_ _
        rw [choiceIndex_transformChunk, choiceIndex_applyPrefix, h]
      · exact hpatched _ (choiceIndex_patched h _)
      · refine hpatched _ ?_
        have hecho : choiceIndex (echoModel { cfg with echoInboundModel := true } value) =
            choiceIndex value := choiceIndex_echoModel value
        exact hecho.trans h
      · intro e he
        rw [List.mem_singleton.mp he, SseEvent.choice, SseEvent.value, hparse]
        exact h

end Index

section Chunk

variable {cfg : StreamConfig} {value : Json} {t t' : ThinkingStreamTransformer}

theorem applyPrefix_of_not_takesPrefix (h : takesPrefix cfg value = false) (applied : Bool) :
    (applyPrefix cfg value applied).1 = value := by
  unfold applyPrefix
  split
  · rename_i hfirst
    split
    · rename_i content hcontent
      split
      · rfl
      · rename_i hne
        simp only [Bool.and_eq_true, decide_eq_true_eq] at hfirst
        simp [takesPrefix, hfirst.2, hcontent, Json.asStr, hne] at h
    · rfl
  · rfl

theorem applyPrefix_same {applied applied' : Bool}
    (hsame : (!takesPrefix cfg value || applied = applied') = true) :
    (applyPrefix cfg value applied).1 = (applyPrefix cfg value applied').1 := by
  cases htakes : takesPrefix cfg value with
  | false =>
    rw [applyPrefix_of_not_takesPrefix htakes, applyPrefix_of_not_takesPrefix htakes]
  | true =>
    have heq : applied = applied' := by simpa [htakes] using hsame
    rw [heq]

theorem delta_applyPrefix (hchat : cfg.isChat = true) {applied : Bool} {fields' : Json.Fields}
    (h : (applyPrefix cfg value applied).1.pointer deltaPointer = some (.obj fields')) :
    ∃ fields, value.pointer deltaPointer = some (.obj fields) ∧
      fieldReasoning fields' = fieldReasoning fields ∧
      (contentOf fields').any (· ≠ "") = (contentOf fields).any (· ≠ "") := by
  have hpointer : cfg.contentPointer = deltaPointer ++ [("content", none)] := by
    rw [StreamConfig.contentPointer, if_pos hchat]
    rfl
  unfold applyPrefix at h
  split at h
  · split at h
    · rename_i content hcontent
      split at h
      · exact ⟨fields', h, rfl, rfl⟩
      · rename_i hne
        rw [hpointer, Json.pointer_append] at hcontent
        rw [hpointer, Json.pointer_pointerModify_append] at h
        obtain ⟨delta, hdelta, hmodified⟩ := Option.map_eq_some_iff.mp h
        rw [hdelta, Option.bind_some] at hcontent
        cases delta with
        | obj fields =>
          have hget : Json.Fields.get fields "content" = some (.str content) := by
            simp only [Json.pointer] at hcontent
            cases hget : Json.Fields.get fields "content" with
            | none => simp [hget] at hcontent
            | some v => simpa [hget] using hcontent
          simp only [Json.pointerModify, Json.obj.injEq] at hmodified
          have hfields : ∀ key, Json.Fields.get fields' key =
              if key = "content" then some (.str (cfg.specialPrefix ++ content))
              else Json.Fields.get fields key := by
            intro key
            rw [← hmodified]
            refine (Json.Fields.get_map_modify "content" (fun _ ↦ .str _) fields key).trans ?_
            split
            · rename_i hkey
              rw [hkey, hget]
              rfl
            · rfl
          refine ⟨fields, hdelta, ?_, ?_⟩
          · simp [fieldReasoning, nonEmptyField, hfields]
          · simp [contentOf, hfields, hget, Json.asStr, hne]
        | null | bool | num | str | arr => cases hcontent
    · exact ⟨fields', h, rfl, rfl⟩
  · exact ⟨fields', h, rfl, rfl⟩

theorem sameForDelta_congr {fields fields' : Json.Fields}
    (hreasons : fieldReasoning fields' = fieldReasoning fields)
    (hanswers : (contentOf fields').any (· ≠ "") = (contentOf fields).any (· ≠ "")) :
    sameForDelta fields' t t' = sameForDelta fields t t' := by
  simp only [sameForDelta, hreasons, hanswers]

theorem transformChunk_same (htarget : t.target = t'.target) (h : Idle t) (h' : Idle t')
    (hsame : ∀ fields, value.pointer deltaPointer = some (.obj fields) →
      sameForDelta fields t t' = true) :
    (transformChunk cfg value t).1 = (transformChunk cfg value t').1 := by
  unfold transformChunk
  split
  · cases hdelta : value.pointer deltaPointer with
    | none => rfl
    | some delta =>
      cases delta with
      | obj fields =>
        simp only [transformDelta, transformDeltaFields_same htarget h h' (hsame fields hdelta)]
      | _ => rfl
  · rfl

end Chunk

section Steps

variable {texts : Texts} {cfg : StreamConfig} {s s' : StreamState} {item : Item}

def endsStream : Item → Bool
  | .ok event => event.data = "[DONE]"
  | .error _ => true

theorem doneFlag_onItem (s : StreamState) (item : Item) :
    (onItem texts cfg s item).2.doneFlag = (s.doneFlag || endsStream item) := by
  have hem := Emitted.of_onItem texts cfg s item
  generalize hr : onItem texts cfg s item = r at hem ⊢
  cases hem with
  | done hdone => simp [onDone_doneFlag, endsStream, hdone]
  | @ping event hping =>
    have hdone : event.data ≠ "[DONE]" := by
      intro hdone
      simp [isPing, hdone] at hping
    simp [endsStream, hdone]
  | data hdone _ _ _ _ hflag => simp [hflag, endsStream, hdone]
  | error => simp [onError, endsStream]

theorem transformer_onItem (s : StreamState) (item : Item) :
    (onItem texts cfg s item).2.transformer = s.transformer ∨
      ∃ f, (onItem texts cfg s item).2.transformer = feed s.transformer f := by
  cases item with
  | error => exact .inl rfl
  | ok event =>
    have hpatched : ∀ patch, (onPatched texts patch s event.data).2.transformer = s.transformer := by
      intro patch
      unfold onPatched
      split <;> rfl
    simp only [onItem, onEvent]
    split_ifs
    · simp only [onDone]
      split
      · split <;> exact .inr ⟨.done, rfl⟩
      · exact .inl rfl
    · exact .inl rfl
    · unfold onRoundtrip
      split
      · simp only [transformChunk]
        split
        · split
          · exact .inr ⟨.delta _, rfl⟩
          · exact .inl rfl
        · exact .inl rfl
      · exact .inl rfl
    · exact .inl (hpatched _)
    · exact .inl (hpatched _)
    · exact .inl rfl

/-- What holds of a state of the stream's transformer at any time. -/
structure Ready (cfg : StreamConfig) (s : StreamState) : Prop where
  target : s.transformer.target = cfg.thinkingTarget
  idle : Idle s.transformer

theorem Ready.init (cfg : StreamConfig) : Ready cfg (.init cfg) where
  target := rfl
  idle := idle_of_carry rfl

theorem Ready.onItem (h : Ready cfg s) (item : Item) : Ready cfg (onItem texts cfg s item).2 := by
  obtain ⟨htarget, hidle⟩ := h
  rcases @transformer_onItem texts cfg s item with hsame | ⟨f, hfed⟩
  · exact ⟨by rw [hsame, htarget], by rw [hsame]; exact hidle⟩
  · exact ⟨by rw [hfed, feed_target, htarget], by rw [hfed]; exact idle_feed hidle f⟩

theorem onDone_flush (s : StreamState) :
    (onDone texts cfg s).1 =
      (if cfg.applyThinking then s.transformer.finalize.1.toList.map .flush else []) ++ [.done] := by
  simp only [onDone]
  split
  · cases s.transformer.finalize.1 <;> rfl
  · rfl

theorem choiceStream_flush {i : ℚ} (hi : i ≠ 0) (deltas : List Json) :
    choiceStream texts i (deltas.map .flush) = [] := by
  rw [choiceStream, List.filter_eq_nil_iff]
  intro e he
  obtain ⟨delta, -, rfl⟩ := List.mem_map.mp he
  have hzero : choiceIndex (flushChunk delta) = some 0 := rfl
  simp [SseEvent.choice, SseEvent.value, hzero, ofChoice, hi.symm]

theorem onDone_same {i : ℚ} (h : Ready cfg s) (h' : Ready cfg s')
    (hsame : (decide (i ≠ 0) || sameForEnd s.transformer s'.transformer) = true) :
    choiceStream texts i (onDone texts cfg s).1 = choiceStream texts i (onDone texts cfg s').1 := by
  rw [onDone_flush, onDone_flush]
  by_cases hi : i = 0
  · have hend : sameForEnd s.transformer s'.transformer = true := by simpa [hi] using hsame
    rw [finalize_same (h.target.trans h'.target.symm) hend]
  · rw [choiceStream, choiceStream, List.filter_append, List.filter_append]
    congr 1
    split
    · exact (choiceStream_flush hi _).trans (choiceStream_flush hi _).symm
    · rfl

theorem onRoundtrip_same (h : Ready cfg s) (h' : Ready cfg s') {data : String}
    (hsame : ∀ value, texts.simdFromStr data = .ok value → sameForChunk cfg value s s' = true) :
    (onRoundtrip texts cfg s data).1 = (onRoundtrip texts cfg s' data).1 := by
  cases hparse : texts.simdFromStr data with
  | error => simp only [onRoundtrip, hparse]
  | ok value =>
    have hchunk := hsame value hparse
    rw [sameForChunk, Bool.and_eq_true] at hchunk
    obtain ⟨hpre, hdelta⟩ := hchunk
    have hread : ∀ fields',
        (applyPrefix cfg value s'.prefixApplied).1.pointer deltaPointer = some (.obj fields') →
          sameForDelta fields' s.transformer s'.transformer = true := by
      intro fields' hfields'
      cases hchat : cfg.isChat with
      | false =>
        have hpass : s.transformer.target = .passthrough := by
          rw [h.target, StreamConfig.thinkingTarget, hchat]
          rfl
        simp only [sameForDelta, hpass]
      | true =>
        obtain ⟨fields, hfields, hreasons, hanswers⟩ := delta_applyPrefix hchat hfields'
        rw [sameForDelta_congr hreasons hanswers]
        simpa only [hfields] using hdelta
    simp only [onRoundtrip, hparse, applyPrefix_same hpre,
      transformChunk_same (h.target.trans h'.target.symm) h.idle h'.idle hread]

theorem onItem_same {i : ℚ} (h : Ready cfg s) (h' : Ready cfg s')
    (hsame : sameForItem texts cfg i item s s' = true) :
    choiceStream texts i (onItem texts cfg s item).1 =
      choiceStream texts i (onItem texts cfg s' item).1 := by
  cases item with
  | error => rfl
  | ok event =>
    have hpatched : ∀ patch, (onPatched texts patch s event.data).1 =
        (onPatched texts patch s' event.data).1 := by
      intro patch
      unfold onPatched
      split <;> rfl
    rw [sameForItem] at hsame
    simp only [onItem, onEvent]
    split_ifs at hsame ⊢ with hdone hping
    · exact onDone_same h h' hsame
    · rfl
    · refine congrArg (choiceStream texts i) (onRoundtrip_same h h' fun value hparse ↦ ?_)
      simpa only [hparse] using hsame
    · rw [hpatched]
    · rw [hpatched]
    · rfl

variable (texts cfg) in
theorem separates (i : ℚ) :
    Separates (onItem texts cfg) (fun item ↦ ofChoice i (itemChoice texts cfg item))
      (fun e ↦ ofChoice i (e.choice texts)) (sameForItem texts cfg i)
      (fun s s' ↦ Ready cfg s ∧ Ready cfg s' ∧ s.doneFlag = s'.doneFlag) where
  kept _ h hsame := onItem_same h.1 h.2.1 hsame
  keptNext {item s s'} _ h :=
    ⟨h.1.onItem item, h.2.1.onItem item, by rw [doneFlag_onItem, doneFlag_onItem, h.2.2]⟩
  dropped {item} s hother := by
    rw [List.filter_eq_nil_iff]
    intro e he
    cases hchoice : itemChoice texts cfg item with
    | none => simp [hchoice, ofChoice] at hother
    | some j => rw [onItem_choice hchoice s e he, ← hchoice, hother]; exact Bool.false_ne_true
  droppedNext {item s s'} hother h := by
    have hgoes : endsStream item = false := by
      cases item with
      | error => simp [itemChoice, ofChoice] at hother
      | ok event =>
        by_cases hdone : event.data = "[DONE]"
        · simp [itemChoice, ofChoice, hdone] at hother
        · simpa [endsStream] using hdone
    exact ⟨h.1.onItem item, h.2.1, by rw [doneFlag_onItem, hgoes, Bool.or_false, h.2.2]⟩

end Steps

section Stream

variable {texts : Texts} {cfg : StreamConfig}

theorem flatMap_eq_run (s : StreamState) (items : List Item) :
    flatMap texts cfg s items = run (onItem texts cfg) s items := by
  induction items generalizing s with
  | nil => rfl
  | cons item items ih => simp only [flatMap, run, ih]

theorem terminateOnError_choiceItems (i : ℚ) (items : List Item) :
    terminateOnError (choiceItems texts cfg i items) =
      choiceItems texts cfg i (terminateOnError items) := by
  induction items with
  | nil => rfl
  | cons item items ih =>
    cases item with
    | error => rfl
    | ok event =>
      rw [terminateOnError, choiceItems, choiceItems, List.filter_cons, List.filter_cons]
      split
      · rw [terminateOnError]
        exact congrArg _ ih
      · exact ih

/-- The client of a choice that is not disturbed gets what it gets of a stream of that choice
alone. -/
theorem choices_apart (i : ℚ) (items : List Item) (h : undisturbed texts cfg i items = true) :
    choiceStream texts i (processStream texts cfg items) =
      choiceStream texts i (processStream texts cfg (choiceItems texts cfg i items)) := by
  have hinit : Ready cfg (.init cfg) := .init cfg
  obtain ⟨hview, -, -, hflag⟩ :=
    (separates texts cfg i).run_filter ⟨hinit, hinit, rfl⟩ h
  simp only [processStream, flatMap_eq_run, terminateOnError_choiceItems, choiceStream,
    List.filter_append]
  rw [choiceItems, hview, hflag]

def choiceChunk (i : ℚ) (field text : String) : Json :=
  .obj [("choices", .arr [.obj [("delta", .obj [(field, .str text)]), ("index", .num i)]])]

def choiceText (i field text : String) : String :=
  "\x7b\"choices\":[\x7b\"index\":" ++ i ++ ",\"delta\":\x7b\"" ++ field ++ "\":\"" ++ text ++
    "\"\x7d\x7d]\x7d"

def choiceTexts : Texts :=
  tableTexts [(choiceText "0" "content" "a", choiceChunk 0 "content" "a"),
    (choiceText "1" "content" "b", choiceChunk 1 "content" "b"),
    (choiceText "0" "content" "a<thi", choiceChunk 0 "content" "a<thi"),
    (choiceText "1" "reasoning" "r", choiceChunk 1 "reasoning" "r")]

def prefixedChat : StreamConfig := { reasoningChat with specialPrefix := "P" }

def reasonsBeside : List Item :=
  [.ok ⟨"message", choiceText "0" "content" "a"⟩, .ok ⟨"message", choiceText "1" "reasoning" "r"⟩,
    .ok ⟨"message", "[DONE]"⟩]

theorem choices_apart_reasons :
    choiceStream choiceTexts 1 (processStream choiceTexts prefixedChat reasonsBeside) =
      choiceStream choiceTexts 1
        (processStream choiceTexts prefixedChat (choiceItems choiceTexts prefixedChat 1
          reasonsBeside)) :=
  choices_apart 1 reasonsBeside (by decide +kernel)

def answersBeside : List Item :=
  [.ok ⟨"message", choiceText "0" "content" "a"⟩, .ok ⟨"message", choiceText "1" "content" "b"⟩]

def tagBeside : List Item :=
  [.ok ⟨"message", choiceText "0" "content" "a<thi"⟩,
    .ok ⟨"message", choiceText "1" "content" "b"⟩]

def choiceContent (cfg : StreamConfig) (i : ℚ) (items : List Item) : String :=
  String.ofList ((choiceStream choiceTexts i (processStream choiceTexts cfg items)).flatMap
    (eventText "content"))

/-- The prefix of choice 1 goes to choice 0, and the start of a tag of choice 0 goes to choice 1. -/
theorem choices_mixed :
    (choiceContent prefixedChat 1 answersBeside = "b" ∧
      choiceContent prefixedChat 1 (choiceItems choiceTexts prefixedChat 1 answersBeside) = "Pb") ∧
    (choiceContent reasoningChat 1 tagBeside = "<thib" ∧
      choiceContent reasoningChat 1 (choiceItems choiceTexts reasoningChat 1 tagBeside) = "b") ∧
    choiceStream choiceTexts 1 (processStream choiceTexts prefixedChat answersBeside) ≠
      choiceStream choiceTexts 1 (processStream choiceTexts prefixedChat
        (choiceItems choiceTexts prefixedChat 1 answersBeside)) := by
  have hpre : choiceContent prefixedChat 1 answersBeside = "b" := by decide +kernel
  have halone : choiceContent prefixedChat 1
      (choiceItems choiceTexts prefixedChat 1 answersBeside) = "Pb" := by decide +kernel
  refine ⟨⟨hpre, halone⟩, by decide +kernel, ?_⟩
  intro hsame
  rw [choiceContent, hsame] at hpre
  exact absurd (hpre.symm.trans halone) (by decide)

end Stream

end QueQiao.StreamHandler
