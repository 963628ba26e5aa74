import QueQiao.Handlers.StreamTermination

namespace QueQiao.StreamHandler

open ThinkingTransformer ThinkingStreamTransformer Lib.Delimiters

/-- What the thinking transformer is given: a delta, or the end that a `[DONE]` stands for. -/
inductive Fed
  | delta (delta : Json)
  | done

def received (texts : Texts) (cfg : StreamConfig) : Bool → List Item → List Fed
  | _, [] => []
  | applied, .error _ :: items => received texts cfg applied items
  | applied, .ok event :: items =>
    if event.data = "[DONE]" then .done :: received texts cfg applied items
    else if cfg.isChat && isChatCompletionPing texts event then received texts cfg applied items
    else
      match texts.simdFromStr event.data with
      | .ok value =>
        let r := applyPrefix cfg value applied
        match r.1.pointer deltaPointer with
        | some delta => .delta delta :: received texts cfg r.2 items
        | none => received texts cfg r.2 items
      | .error _ => received texts cfg applied items

/-- The deltas of a client that loses nothing: every delta transformed, and what `finalize` gives
at every `[DONE]` and at the end. -/
def lossless (t : ThinkingStreamTransformer) : List Fed → List Json
  | [] => t.finalize.1.toList
  | .delta delta :: fed => (t.transformDelta delta).1 :: lossless (t.transformDelta delta).2 fed
  | .done :: fed => t.finalize.1.toList ++ lossless t.finalize.2 fed

def feed (t : ThinkingStreamTransformer) : Fed → ThinkingStreamTransformer
  | .delta delta => (t.transformDelta delta).2
  | .done => t.finalize.2

def SseEvent.delta : SseEvent → Option Json
  | .chunk value => value.pointer deltaPointer
  | .flush delta => (flushChunk delta).pointer deltaPointer
  | _ => none

def eventText (key : String) (e : SseEvent) : List Char :=
  (e.delta.map (fieldText key)).getD []

def FlushBeforeDone (events : List SseEvent) : Prop :=
  ∀ pre delta post, events = pre ++ .flush delta :: post → ∃ rest, post = .done :: rest

/-- The client gets all text that the transformer was given, with what `finalize` adds in front of
a `[DONE]`. -/
def Delivered (texts : Texts) (cfg : StreamConfig) (items : List Item) : Prop :=
  let events := processStream texts cfg items
  (∀ key ∈ ["content", targetField cfg.thinkingFormat],
    events.flatMap (eventText key) =
      (lossless (.new cfg.thinkingFormat) (received texts cfg false items)).flatMap
        (fieldText key)) ∧
    FlushBeforeDone events

section Chunk

variable {cfg : StreamConfig} {value : Json}

theorem eventText_flush (key : String) (delta : Json) :
    eventText key (.flush delta) = fieldText key delta := rfl

theorem pointer_echoModel (tokens : List Json.Token) (value : Json) :
    (echoModel cfg value).pointer (("choices", none) :: tokens) =
      value.pointer (("choices", none) :: tokens) := by
  unfold echoModel
  split
  · cases value with
    | obj fields =>
      simp only [rewriteChunkModel]
      split
      · have hne : ("choices" : String) ≠ "model" := by decide
        simp only [Json.pointer, Json.Fields.get_insert_ne hne]
      · rfl
    | _ => rfl
  · rfl

theorem delta_ensureNonEmptyChoices_of_some {delta : Json}
    (h : value.pointer deltaPointer = some delta) (isChat : Bool) :
    (ensureNonEmptyChoices isChat value).pointer deltaPointer = some delta := by
  cases value with
  | obj fields =>
    simp only [ensureNonEmptyChoices]
    split
    · rename_i hget
      simp [deltaPointer, Json.pointer, hget] at h
    · exact h
  | _ => exact h

theorem eventText_ensureNonEmptyChoices_of_none (h : value.pointer deltaPointer = none)
    (isChat : Bool) (key : String) :
    eventText key (.chunk (echoModel cfg (ensureNonEmptyChoices isChat value))) = [] := by
  have hecho : (echoModel cfg (ensureNonEmptyChoices isChat value)).pointer deltaPointer =
      (ensureNonEmptyChoices isChat value).pointer deltaPointer := pointer_echoModel _ _
  rw [eventText, SseEvent.delta, hecho]
  cases value with
  | obj fields =>
    simp only [ensureNonEmptyChoices]
    split
    · rw [deltaPointer, Json.pointer, Json.Fields.get_insert_self]
      cases isChat <;> rfl
    · rw [h]
      rfl
  | _ => rfl

theorem eventText_chunk_of_some {delta : Json} (h : value.pointer deltaPointer = some delta)
    (isChat : Bool) (key : String) :
    eventText key (.chunk (echoModel cfg (ensureNonEmptyChoices isChat value))) =
      fieldText key delta := by
  have hecho : (echoModel cfg (ensureNonEmptyChoices isChat value)).pointer deltaPointer =
      (ensureNonEmptyChoices isChat value).pointer deltaPointer := pointer_echoModel _ _
  rw [eventText, SseEvent.delta, hecho, delta_ensureNonEmptyChoices_of_some h]
  rfl

end Chunk

section Run

variable {texts : Texts} {cfg : StreamConfig}

theorem onRoundtrip_received (happly : cfg.applyThinking = true) {s : StreamState} {data : String}
    {value : Json} (hparse : texts.simdFromStr data = .ok value) (key : String) :
    let r := applyPrefix cfg value s.prefixApplied
    let out := onRoundtrip texts cfg s data
    out.2.prefixApplied = r.2 ∧
      match r.1.pointer deltaPointer with
      | some delta =>
        out.1.flatMap (eventText key) = fieldText key (s.transformer.transformDelta delta).1 ∧
          out.2.transformer = (s.transformer.transformDelta delta).2
      | none => out.1.flatMap (eventText key) = [] ∧ out.2.transformer = s.transformer := by
  simp only [onRoundtrip, hparse, transformChunk, happly, ↓reduceIte]
  cases hptr : (applyPrefix cfg value s.prefixApplied).1.pointer deltaPointer with
  | some delta =>
    refine ⟨rfl, ?_, rfl⟩
    rw [List.flatMap_singleton]
    exact eventText_chunk_of_some (Json.pointer_pointerModify _ hptr) _ _
  | none =>
    refine ⟨rfl, ?_, rfl⟩
    rw [List.flatMap_singleton]
    exact eventText_ensureNonEmptyChoices_of_none hptr _ _

variable (texts) in
theorem onDone_received (happly : cfg.applyThinking = true) (s : StreamState) (key : String) :
    (onDone texts cfg s).1.flatMap (eventText key) =
        s.transformer.finalize.1.toList.flatMap (fieldText key) ∧
      (onDone texts cfg s).2.transformer = s.transformer.finalize.2 ∧
      (onDone texts cfg s).2.prefixApplied = s.prefixApplied := by
  simp only [onDone, happly, ↓reduceIte]
  cases s.transformer.finalize.1 with
  | none => exact ⟨rfl, rfl, rfl⟩
  | some delta =>
    refine ⟨?_, rfl, rfl⟩
    simp only [List.flatMap_cons, List.flatMap_nil, eventText_flush, Option.toList_some]
    rfl

variable (texts) in
theorem flatMap_received (happly : cfg.applyThinking = true) (s : StreamState)
    {items : List Item} (hok : ∀ item ∈ items, ∃ event, item = .ok event) (key : String) :
    let r := flatMap texts cfg s items
    let fed := received texts cfg s.prefixApplied items
    r.1.flatMap (eventText key) ++ r.2.transformer.finalize.1.toList.flatMap (fieldText key) =
        (lossless s.transformer fed).flatMap (fieldText key) ∧
      r.2.transformer = fed.foldl feed s.transformer := by
  have hneeds : cfg.needsJsonRoundtrip = true := by simp [StreamConfig.needsJsonRoundtrip, happly]
  induction items generalizing s with
  | nil => exact ⟨rfl, rfl⟩
  | cons item items ih =>
    obtain ⟨event, rfl⟩ := hok item List.mem_cons_self
    have hrest : ∀ item ∈ items, ∃ event, item = .ok event :=
      fun item hitem ↦ hok item (List.mem_cons_of_mem _ hitem)
    simp only [flatMap, onItem, onEvent, received, hneeds, ↓reduceIte, List.flatMap_append,
      List.append_assoc]
    split_ifs with hdone hping
    · obtain ⟨htext, hstate, happlied⟩ := onDone_received texts happly s key
      obtain ⟨ihtext, ihstate⟩ := ih (onDone texts cfg s).2 hrest
      rw [happlied, hstate] at ihtext ihstate
      rw [htext, ihtext, ihstate, lossless, List.flatMap_append]
      exact ⟨rfl, rfl⟩
    · obtain ⟨ihtext, ihstate⟩ := ih s hrest
      exact ⟨ihtext, ihstate⟩
    · cases hparse : texts.simdFromStr event.data with
      | error data =>
        obtain ⟨ihtext, ihstate⟩ := ih s hrest
        simp only [onRoundtrip, hparse]
        exact ⟨ihtext, ihstate⟩
      | ok value =>
        have hchunk := onRoundtrip_received happly (s := s) hparse key
        obtain ⟨ihtext, ihstate⟩ := ih (onRoundtrip texts cfg s event.data).2 hrest
        simp only at hchunk ⊢
        cases hptr : (applyPrefix cfg value s.prefixApplied).1.pointer deltaPointer with
        | some delta =>
          rw [hptr] at hchunk
          obtain ⟨happlied, htext, hstate⟩ := hchunk
          rw [happlied, hstate] at ihtext ihstate
          rw [htext, ihtext, ihstate, lossless, List.flatMap_cons]
          exact ⟨rfl, rfl⟩
        | none =>
          rw [hptr] at hchunk
          obtain ⟨happlied, htext, hstate⟩ := hchunk
          rw [happlied, hstate] at ihtext ihstate
          rw [htext, List.nil_append]
          exact ⟨ihtext, ihstate⟩

theorem FlushBeforeDone.cons {e : SseEvent} {events : List SseEvent}
    (he : ∀ delta, e ≠ .flush delta) (h : FlushBeforeDone events) :
    FlushBeforeDone (e :: events) := by
  intro pre delta post heq
  cases pre with
  | nil => exact absurd (List.cons.inj heq).1 (he delta)
  | cons e' pre => exact h pre delta post (List.cons.inj heq).2

theorem FlushBeforeDone.flush_done {delta : Json} {events : List SseEvent}
    (h : FlushBeforeDone events) : FlushBeforeDone (.flush delta :: .done :: events) := by
  intro pre delta' post heq
  cases pre with
  | nil => exact ⟨events, (List.cons.inj heq).2.symm⟩
  | cons e' pre =>
    refine FlushBeforeDone.cons (e := .done) (fun _ hne ↦ by cases hne) h pre delta' post ?_
    exact (List.cons.inj heq).2

theorem flushBeforeDone_doneSentinel (flag : Bool) : FlushBeforeDone (doneSentinel flag) := by
  intro pre delta post heq
  cases flag with
  | true => simp [doneSentinel] at heq
  | false =>
    have hmem : SseEvent.flush delta ∈ doneSentinel false := by
      rw [heq]
      exact List.mem_append_right _ List.mem_cons_self
    simp [doneSentinel] at hmem

theorem flushBeforeDone_flatMap (s : StreamState) (items : List Item) {tail : List SseEvent}
    (htail : FlushBeforeDone tail) : FlushBeforeDone ((flatMap texts cfg s items).1 ++ tail) := by
  induction items generalizing s with
  | nil => exact htail
  | cons item items ih =>
    simp only [flatMap, List.append_assoc]
    have hem := Emitted.of_onItem texts cfg s item
    generalize onItem texts cfg s item = r at hem ⊢
    cases hem with
    | done =>
      rcases onDone_events texts cfg s with he | ⟨delta, he⟩
      · rw [he]
        exact (ih _).cons fun _ hne ↦ by cases hne
      · rw [he]
        exact (ih _).flush_done
    | ping => exact (ih _).cons fun _ hne ↦ by cases hne
    | data _ _ _ _ hflush => exact (ih _).cons hflush
    | error => exact (ih _).cons fun _ hne ↦ by cases hne

theorem terminateOnError_of_ok {items : List Item}
    (hok : ∀ item ∈ items, ∃ event, item = .ok event) : terminateOnError items = items := by
  induction items with
  | nil => rfl
  | cons item items ih =>
    obtain ⟨event, rfl⟩ := hok item List.mem_cons_self
    rw [terminateOnError, ih fun item hitem ↦ hok item (List.mem_cons_of_mem _ hitem)]

end Run

def contentOf (fields : Json.Fields) : Option String :=
  (Json.Fields.get fields "content").bind Json.asStr

def givesReasoning : Fed → Bool
  | .delta (.obj fields) => (fieldReasoning fields).isSome
  | _ => false

/-- What ends the think block of a `ThinkTag` stream: an answer, or `[DONE]`. -/
def closesThinking : Fed → Bool
  | .delta (.obj fields) => (contentOf fields).any (· ≠ "")
  | .delta _ => false
  | .done => true

/-- The scanner of the tags over the contents that come without a reasoning of their own. -/
def scanFed (s : Scan Phase Char) : Fed → Scan Phase Char
  | .done => { s with carry := [] }
  | .delta (.obj fields) =>
    if (fieldReasoning fields).isSome then s
    else
      match contentOf fields with
      | some content => s.feed thinkDelims content.toList
      | none => s
  | .delta _ => s

/-- The stream stops inside a tag, or with a think block that nothing has closed. -/
def Unfinished (fed : List Fed) : ThinkingFormat → Prop
  | .passthrough => False
  | .thinkTag =>
    let rest := fed.dropWhile fun f ↦ !givesReasoning f
    rest ≠ [] ∧ ∀ f ∈ rest, closesThinking f = false
  | .reasoning | .reasoningContent =>
    (fed.foldl scanFed (scan thinkDelims .content [])).carry ≠ []

section Finalize

variable {t : ThinkingStreamTransformer} {s : Scan Phase Char} {fed : List Fed}

theorem holds_feed (h : Holds t s) (f : Fed) : Holds (feed t f) (scanFed s f) := by
  cases f with
  | done =>
    obtain ⟨htarget, hphase, hcarry⟩ := h
    by_cases hempty : t.carry = []
    · have hsame : feed t .done = t := by
        rcases htarget with ht | ht <;> simp [feed, finalize, ht, hempty]
      rw [hsame]
      exact ⟨htarget, hphase, hempty⟩
    · have hflushed : feed t .done = { t with carry := [] } := by
        rcases htarget with ht | ht <;> cases hp : t.phase <;>
          simp [feed, finalize, ht, hempty, hp]
      rw [hflushed]
      exact ⟨htarget, hphase, rfl⟩
  | delta delta =>
    cases delta with
    | obj fields =>
      simp only [feed, scanFed, transformDelta]
      have hown : (nonEmptyField fields "reasoning").or (nonEmptyField fields "reasoning_content") =
          fieldReasoning fields := rfl
      have hcontent : (Json.Fields.get fields "content").bind Json.asStr = contentOf fields := rfl
      cases hr : fieldReasoning fields with
      | some val =>
        have hsame : (t.transformDeltaFields fields).2 = t := by
          rcases h.target with ht | ht <;> simp only [transformDeltaFields, ht, hown, hr]
        rw [hsame]
        exact h
      | none =>
        cases hc : contentOf fields with
        | none =>
          have hsame : (t.transformDeltaFields fields).2 = t := by
            rcases h.target with ht | ht <;>
              simp only [transformDeltaFields, ht, hown, hr, hcontent, hc]
          rw [hsame]
          exact h
        | some content =>
          have hparsed : (t.transformDeltaFields fields).2 = (t.parseContentSource content).2 := by
            rcases h.target with ht | ht <;>
              simp only [transformDeltaFields, ht, hown, hr, hcontent, hc]
          rw [hparsed]
          exact (h.parseContentSource content).2.2.2
    | _ => exact h

theorem holds_foldl_feed (h : Holds t s) (fed : List Fed) :
    Holds (fed.foldl feed t) (fed.foldl scanFed s) := by
  induction fed generalizing t s with
  | nil => exact h
  | cons f fed ih => exact ih (holds_feed h f)

theorem feed_target (t : ThinkingStreamTransformer) (f : Fed) : (feed t f).target = t.target := by
  cases f with
  | done =>
    simp only [feed, finalize]
    split
    · rfl
    · split <;> rfl
    all_goals
      split
      · rfl
      · split <;> rfl
  | delta delta =>
    cases delta with
    | obj fields =>
      simp only [feed, transformDelta, transformDeltaFields]
      split
      · rfl
      · split
        · rfl
        · split <;> rfl
      · split
        · rfl
        · split <;> rfl
      · rfl
    | _ => rfl

theorem foldl_feed_target (t : ThinkingStreamTransformer) (fed : List Fed) :
    (fed.foldl feed t).target = t.target := by
  induction fed generalizing t with
  | nil => rfl
  | cons f fed ih => exact (ih (feed t f)).trans (feed_target t f)

theorem feed_thinkTag (h : t.target = .thinkTag) (f : Fed) :
    (feed t f).target = .thinkTag ∧
      (feed t f).thinkOpen = (t.thinkOpen || givesReasoning f) ∧
      (feed t f).thinkClosed =
        (t.thinkClosed || ((t.thinkOpen || givesReasoning f) && closesThinking f)) := by
  cases f with
  | done =>
    cases ho : t.thinkOpen <;> cases hc : t.thinkClosed <;>
      simp [feed, finalize, h, ho, hc, givesReasoning, closesThinking]
  | delta delta =>
    cases delta with
    | obj fields =>
      simp only [feed, transformDelta, transformDeltaFields, h, givesReasoning, closesThinking,
        contentOf]
      refine ⟨trivial, trivial, ?_⟩
      cases t.thinkClosed <;> simp [Bool.and_comm]
    | _ => simp [feed, transformDelta, h, givesReasoning, closesThinking]

theorem foldl_feed_closed (h : t.target = .thinkTag) (hclosed : t.thinkClosed = true)
    (fed : List Fed) : (fed.foldl feed t).thinkClosed = true := by
  induction fed generalizing t with
  | nil => exact hclosed
  | cons f fed ih =>
    obtain ⟨htarget, -, hnext⟩ := feed_thinkTag h f
    refine ih htarget ?_
    rw [hnext, hclosed, Bool.true_or]

theorem foldl_feed_open (h : t.target = .thinkTag) (hopen : t.thinkOpen = true)
    (hclosed : t.thinkClosed = false) (fed : List Fed) :
    ((fed.foldl feed t).thinkOpen && !(fed.foldl feed t).thinkClosed) = true ↔
      ∀ f ∈ fed, closesThinking f = false := by
  induction fed generalizing t with
  | nil => simp [hopen, hclosed]
  | cons f fed ih =>
    obtain ⟨htarget, hopen', hclosed'⟩ := feed_thinkTag h f
    rw [hopen, Bool.true_or] at hopen'
    rw [hopen, hclosed, Bool.true_or, Bool.true_and, Bool.false_or] at hclosed'
    rw [List.foldl_cons, List.forall_mem_cons]
    cases hf : closesThinking f with
    | false =>
      rw [hf] at hclosed'
      simpa using ih htarget hopen' hclosed'
    | true =>
      rw [hf] at hclosed'
      simp [foldl_feed_closed htarget hclosed' fed]

theorem foldl_feed_fresh (h : t.target = .thinkTag) (hopen : t.thinkOpen = false)
    (hclosed : t.thinkClosed = false) (fed : List Fed) :
    ((fed.foldl feed t).thinkOpen && !(fed.foldl feed t).thinkClosed) = true ↔
      Unfinished fed .thinkTag := by
  induction fed generalizing t with
  | nil => simp [hopen, Unfinished]
  | cons f fed ih =>
    obtain ⟨htarget, hopen', hclosed'⟩ := feed_thinkTag h f
    rw [hopen, Bool.false_or] at hopen'
    rw [hopen, hclosed, Bool.false_or, Bool.false_or] at hclosed'
    cases hf : givesReasoning f with
    | false =>
      rw [hf] at hopen' hclosed'
      rw [List.foldl_cons, ih htarget hopen' hclosed', Unfinished, Unfinished,
        List.dropWhile_cons_of_pos (by simp [hf])]
    | true =>
      have hrest : Unfinished (f :: fed) .thinkTag ↔ ∀ g ∈ f :: fed, closesThinking g = false := by
        rw [Unfinished, List.dropWhile_cons_of_neg (by simp [hf])]
        simp
      rw [hf] at hopen' hclosed'
      rw [Bool.true_and] at hclosed'
      rw [hrest, List.foldl_cons, List.forall_mem_cons]
      cases hc : closesThinking f with
      | false =>
        rw [hc] at hclosed'
        simpa using foldl_feed_open htarget hopen' hclosed' fed
      | true =>
        rw [hc] at hclosed'
        simp [foldl_feed_closed htarget hclosed' fed]

theorem finalize_eq_none_iff_carry (h : t.target = .reasoning ∨ t.target = .reasoningContent) :
    t.finalize.1 = none ↔ t.carry = [] := by
  by_cases hempty : t.carry = []
  · rcases h with ht | ht <;> simp [finalize, ht, hempty]
  · rcases h with ht | ht <;> cases hp : t.phase <;> simp [finalize, ht, hempty, hp]

theorem finalize_text_eq_nil_iff (t : ThinkingStreamTransformer) :
    (∀ key ∈ ["content", targetField t.target],
        t.finalize.1.toList.flatMap (fieldText key) = []) ↔ t.finalize.1 = none := by
  constructor
  · intro htext
    cases hf : t.finalize.1 with
    | none => rfl
    | some delta =>
      have hcontent := htext "content" List.mem_cons_self
      have htarget := htext (targetField t.target) (List.mem_cons_of_mem _ List.mem_cons_self)
      rw [hf, Option.toList_some, List.flatMap_singleton] at hcontent htarget
      unfold finalize at hf
      split at hf
      · cases hf
      · split at hf
        · obtain rfl := Option.some.inj hf
          rw [fieldText_single_self] at hcontent
          exact absurd hcontent (by decide)
        · cases hf
      all_goals
        split at hf
        · cases hf
        · rename_i hcarry
          split at hf
          · obtain rfl := Option.some.inj hf
            rw [fieldText_single_self, String.toList_ofList] at hcontent
            exact absurd hcontent hcarry
          · obtain rfl := Option.some.inj hf
            rw [fieldText_single_self, String.toList_ofList] at htarget
            exact absurd htarget hcarry
  · intro hnone key _
    rw [hnone]
    rfl

theorem finalize_eq_none_iff {target : ThinkingFormat} (h : target ≠ .passthrough)
    (fed : List Fed) :
    (fed.foldl feed (new target)).finalize.1 = none ↔ ¬Unfinished fed target := by
  have htags : target = .reasoning ∨ target = .reasoningContent →
      ((fed.foldl feed (new target)).finalize.1 = none ↔
        (fed.foldl scanFed (scan thinkDelims .content [])).carry = []) := by
    intro htarget
    have hstart : Holds (new target) (scan thinkDelims .content []) := by
      rw [scan_nil]
      exact ⟨htarget, rfl, rfl⟩
    obtain ⟨htarget', -, hcarry⟩ := holds_foldl_feed hstart fed
    rw [← hcarry]
    exact finalize_eq_none_iff_carry htarget'
  cases target with
  | passthrough => exact absurd rfl h
  | reasoning => simpa [Unfinished] using htags (.inl rfl)
  | reasoningContent => simpa [Unfinished] using htags (.inr rfl)
  | thinkTag =>
    rw [← foldl_feed_fresh (t := new .thinkTag) rfl rfl rfl fed]
    have ht : (fed.foldl feed (new .thinkTag)).target = .thinkTag := foldl_feed_target _ fed
    simp only [finalize, ht]
    split <;> simp_all

end Finalize

variable {texts : Texts} {cfg : StreamConfig}

/-- All text that the transformer is given reaches the client, with what `finalize` adds in front
of a `[DONE]`, exactly if the stream does not stop inside a tag or an open think block. -/
theorem delivered_iff (hchat : cfg.isChat = true) (htarget : cfg.thinkingFormat ≠ .passthrough)
    {items : List Item} (hok : ∀ item ∈ items, ∃ event, item = .ok event) :
    Delivered texts cfg items ↔
      ¬Unfinished (received texts cfg false items) cfg.thinkingFormat := by
  have hthinking : cfg.thinkingTarget = cfg.thinkingFormat := by
    simp [StreamConfig.thinkingTarget, hchat]
  have happly : cfg.applyThinking = true := by
    simp [StreamConfig.applyThinking, hchat, hthinking, htarget]
  have hinit : (StreamState.init cfg).transformer = new cfg.thinkingFormat :=
    congrArg new hthinking
  have hflush : FlushBeforeDone (processStream texts cfg items) :=
    flushBeforeDone_flatMap _ _ (flushBeforeDone_doneSentinel _)
  have hrun := flatMap_received texts happly (.init cfg) hok
  have happlied : (StreamState.init cfg).prefixApplied = false := rfl
  simp only [hinit, happlied] at hrun
  have hevents : ∀ key, (processStream texts cfg items).flatMap (eventText key) =
      (flatMap texts cfg (.init cfg) items).1.flatMap (eventText key) := by
    intro key
    have hsentinel : ∀ flag, (doneSentinel flag).flatMap (eventText key) = [] := by
      intro flag
      cases flag <;> rfl
    simp only [processStream, terminateOnError_of_ok hok, List.flatMap_append, hsentinel,
      List.append_nil]
  rw [← finalize_eq_none_iff htarget, ← finalize_text_eq_nil_iff, foldl_feed_target,
    ← (hrun "content").2]
  constructor
  · rintro ⟨htext, -⟩ key hkey
    have hkeyText := htext key hkey
    rw [hevents, ← (hrun key).1] at hkeyText
    exact List.append_right_eq_self.mp hkeyText.symm
  · intro hnil
    refine ⟨fun key hkey ↦ ?_, hflush⟩
    have hkeyText := (hrun key).1
    rw [hnil key hkey, List.append_nil] at hkeyText
    exact (hevents key).trans hkeyText

def reasoningChat : StreamConfig := { plainChat with thinkingFormat := .reasoning }

/-- A chunk whose content is the text `a` and the start of a tag. -/
def partialTag : String := "\x7b\"choices\":[\x7b\"delta\":\x7b\"content\":\"a<thi\"\x7d\x7d]\x7d"

def partialTagTexts : Texts :=
  tableTexts [(partialTag,
    .obj [("choices", .arr [.obj [("delta", .obj [("content", .str "a<thi")])]])])]

theorem delivered_iff_done :
    Delivered partialTagTexts reasoningChat
        [.ok ⟨"message", partialTag⟩, .ok ⟨"message", "[DONE]"⟩] ↔
      ¬Unfinished (received partialTagTexts reasoningChat false
        [.ok ⟨"message", partialTag⟩, .ok ⟨"message", "[DONE]"⟩]) .reasoning := by
  refine delivered_iff rfl (by decide) ?_
  intro item hitem
  simp only [List.mem_cons, List.not_mem_nil, or_false] at hitem
  rcases hitem with rfl | rfl <;> exact ⟨_, rfl⟩

/-- The stream stops without `[DONE]`: the client gets `a` and the sentinel, and the start of the
tag is lost. -/
theorem partial_tag_lost :
    (processStream partialTagTexts reasoningChat [.ok ⟨"message", partialTag⟩]).flatMap
        (eventText "content") = "a".toList ∧
      ¬Delivered partialTagTexts reasoningChat [.ok ⟨"message", partialTag⟩] := by
  have hsent : (processStream partialTagTexts reasoningChat [.ok ⟨"message", partialTag⟩]).flatMap
      (eventText "content") = "a".toList := by
    decide +kernel
  have hgiven : (lossless (.new .reasoning) (received partialTagTexts reasoningChat false
      [.ok ⟨"message", partialTag⟩])).flatMap (fieldText "content") = "a<thi".toList := by
    decide +kernel
  refine ⟨hsent, fun h ↦ ?_⟩
  have htext := h.1 "content" List.mem_cons_self
  rw [hsent] at htext
  exact absurd (htext.trans hgiven) (by decide)

end QueQiao.StreamHandler
