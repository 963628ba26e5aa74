import QueQiao.Handlers.StreamHandler

namespace QueQiao.StreamHandler

open Lib.Delimiters

variable {texts : Texts} {cfg : StreamConfig}

def SseEvent.isComment : SseEvent → Bool
  | .comment _ => true
  | _ => false

/-- A terminal marker: `[DONE]` on the wire, or an error chunk. -/
def IsTerminal (texts : Texts) (e : SseEvent) : Prop :=
  e.data texts = some "[DONE]" ∨ ∃ model message, e = .error model message

/-- One terminal marker, and only comments after it. -/
def TerminatedOnce (texts : Texts) (events : List SseEvent) : Prop :=
  ∃ pre marker post, events = pre ++ marker :: post ∧ IsTerminal texts marker ∧
    (∀ e ∈ pre, ¬IsTerminal texts e) ∧ ∀ e ∈ post, e.isComment = true

theorem terminatedOnce_cons_of_not {e : SseEvent} (h : ¬IsTerminal texts e)
    (events : List SseEvent) :
    TerminatedOnce texts (e :: events) ↔ TerminatedOnce texts events := by
  constructor
  · rintro ⟨pre, marker, post, heq, hmarker, hpre, hpost⟩
    cases pre with
    | nil =>
      obtain ⟨rfl, -⟩ := List.cons.inj heq
      exact absurd hmarker h
    | cons e' pre =>
      obtain ⟨-, rfl⟩ := List.cons.inj heq
      exact ⟨pre, marker, post, rfl, hmarker, fun x hx ↦ hpre x (List.mem_cons_of_mem _ hx), hpost⟩
  · rintro ⟨pre, marker, post, rfl, hmarker, hpre, hpost⟩
    refine ⟨e :: pre, marker, post, rfl, hmarker, ?_, hpost⟩
    intro x hx
    rcases List.mem_cons.mp hx with rfl | hx
    · exact h
    · exact hpre x hx

theorem terminatedOnce_cons_of_terminal {e : SseEvent} (h : IsTerminal texts e)
    (events : List SseEvent) :
    TerminatedOnce texts (e :: events) ↔ ∀ x ∈ events, x.isComment = true := by
  constructor
  · rintro ⟨pre, marker, post, heq, hmarker, hpre, hpost⟩
    cases pre with
    | nil =>
      obtain ⟨-, rfl⟩ := List.cons.inj heq
      exact hpost
    | cons e' pre =>
      obtain ⟨rfl, -⟩ := List.cons.inj heq
      exact absurd h (hpre _ List.mem_cons_self)
  · intro hcomments
    exact ⟨[], e, events, rfl, h, fun x hx ↦ absurd hx List.not_mem_nil, hcomments⟩

theorem isTerminal_done : IsTerminal texts .done := .inl rfl

theorem isTerminal_error (model message : String) : IsTerminal texts (.error model message) :=
  .inr ⟨model, message, rfl⟩

theorem not_isTerminal_comment (text : String) : ¬IsTerminal texts (.comment text) := by
  rintro (h | ⟨_, _, h⟩) <;> cases h

theorem not_isTerminal_chunk (h : texts.Lawful) (value : Json) :
    ¬IsTerminal texts (.chunk value) := by
  rintro (hd | ⟨_, _, hd⟩)
  · exact h.render_ne _ (Option.some.inj hd)
  · cases hd

theorem not_isTerminal_flush (h : texts.Lawful) (delta : Json) :
    ¬IsTerminal texts (.flush delta) := by
  rintro (hd | ⟨_, _, hd⟩)
  · exact h.render_ne _ (Option.some.inj hd)
  · cases hd

theorem not_isTerminal_raw {data : String} (h : data ≠ "[DONE]") :
    ¬IsTerminal texts (.raw data) := by
  rintro (hd | ⟨_, _, hd⟩)
  · exact h (Option.some.inj hd)
  · cases hd

def isDone : Item → Bool
  | .ok event => event.data = "[DONE]"
  | .error _ => false

def isPing (texts : Texts) (cfg : StreamConfig) : Item → Bool
  | .ok event => event.data ≠ "[DONE]" && (cfg.isChat && isChatCompletionPing texts event)
  | .error _ => false

inductive Emitted (texts : Texts) (cfg : StreamConfig) (s : StreamState) :
    Item → List SseEvent × StreamState → Prop
  | done {event : UpstreamEvent} (hdone : event.data = "[DONE]") :
      Emitted texts cfg s (.ok event) (onDone texts cfg s)
  | ping {event : UpstreamEvent} (hping : isPing texts cfg (.ok event) = true) :
      Emitted texts cfg s (.ok event) ([.comment "keepalive"], s)
  | data {event : UpstreamEvent} {e : SseEvent} {t : StreamState}
      (hdone : event.data ≠ "[DONE]") (hping : isPing texts cfg (.ok event) = false)
      (hterminal : texts.Lawful → ¬IsTerminal texts e) (hcomment : e.isComment = false)
      (hflush : ∀ delta, e ≠ .flush delta) (hflag : t.doneFlag = s.doneFlag) : Emitted texts cfg s (.ok event) ([e], t)
  | error (message : String) : Emitted texts cfg s (.error message) (onError cfg s message)

theorem Emitted.of_onRoundtrip {s : StreamState} {event : UpstreamEvent}
    (hdone : event.data ≠ "[DONE]") (hping : isPing texts cfg (.ok event) = false) :
    Emitted texts cfg s (.ok event) (onRoundtrip texts cfg s event.data) := by
  unfold onRoundtrip
  split
  · exact .data hdone hping (fun h ↦ not_isTerminal_chunk h _) rfl (by simp) rfl
  · rename_i data hdata
    exact .data hdone hping (fun h ↦ not_isTerminal_raw (h.rejected_ne _ _ hdata hdone)) rfl
      (by simp) rfl

theorem Emitted.of_onPatched {s : StreamState} {event : UpstreamEvent} (patch : Json → Json)
    (hdone : event.data ≠ "[DONE]") (hping : isPing texts cfg (.ok event) = false) :
    Emitted texts cfg s (.ok event) (onPatched texts patch s event.data) := by
  unfold onPatched
  split
  · exact .data hdone hping (fun h ↦ not_isTerminal_chunk h _) rfl (by simp) rfl
  · rename_i data hdata
    exact .data hdone hping (fun h ↦ not_isTerminal_raw (h.rejected_ne _ _ hdata hdone)) rfl
      (by simp) rfl

variable (texts cfg)

theorem Emitted.of_onItem (s : StreamState) (item : Item) :
    Emitted texts cfg s item (onItem texts cfg s item) := by
  cases item with
  | error message => exact .error message
  | ok event =>
    simp only [onItem, onEvent]
    split_ifs with hdone hping
    · exact .done hdone
    · exact .ping (by simpa [isPing, hdone] using hping)
    all_goals
      have hnot : isPing texts cfg (.ok event) = false := by simpa [isPing, hdone] using hping
    · exact .of_onRoundtrip hdone hnot
    · exact .of_onPatched _ hdone hnot
    · exact .of_onPatched _ hdone hnot
    · exact .data hdone hnot (fun _ ↦ not_isTerminal_raw hdone) rfl (by simp) rfl

theorem onDone_events (s : StreamState) :
    (onDone texts cfg s).1 = [.done] ∨
      ∃ delta, (onDone texts cfg s).1 = [.flush delta, .done] := by
  simp only [onDone]
  split
  · split
    · exact .inr ⟨_, rfl⟩
    · exact .inl rfl
  · exact .inl rfl

theorem onDone_doneFlag (s : StreamState) : (onDone texts cfg s).2.doneFlag = true := by
  simp only [onDone]
  split
  · split <;> rfl
  · rfl

theorem comments_flatMap_iff (s : StreamState) (items : List Item) :
    (∀ e ∈ (flatMap texts cfg s items).1, e.isComment = true) ↔
      ∀ item ∈ items, isPing texts cfg item = true := by
  induction items generalizing s with
  | nil => simp [flatMap]
  | cons item items ih =>
    have hhead : (∀ e ∈ (onItem texts cfg s item).1, e.isComment = true) ↔
        isPing texts cfg item = true := by
      have hem := Emitted.of_onItem texts cfg s item
      generalize onItem texts cfg s item = r at hem ⊢
      cases hem with
      | done hdone =>
        rcases onDone_events texts cfg s with h | ⟨delta, h⟩ <;>
          simp [h, isPing, hdone, SseEvent.isComment]
      | ping hping => simp [hping, SseEvent.isComment]
      | data _ hping _ hcomment => simp [hping, hcomment]
      | error message => simp [onError, isPing, SseEvent.isComment]
    simp only [flatMap, List.mem_append, List.forall_mem_cons, or_imp, forall_and, hhead, ih]

theorem doneFlag_flatMap {s : StreamState} (h : s.doneFlag = true) (items : List Item) :
    (flatMap texts cfg s items).2.doneFlag = true := by
  induction items generalizing s with
  | nil => exact h
  | cons item items ih =>
    refine ih ?_
    have hem := Emitted.of_onItem texts cfg s item
    generalize onItem texts cfg s item = r at hem ⊢
    cases hem with
    | done => exact onDone_doneFlag texts cfg s
    | ping => exact h
    | data _ _ _ _ _ hflag => exact hflag.trans h
    | error => rfl

variable {texts cfg}

/-- The items after the first `[DONE]`, up to the first error. -/
def afterDone (items : List Item) : List Item :=
  ((terminateOnError items).dropWhile fun item ↦ !isDone item).tail

theorem terminatedOnce_flatMap_iff (h : texts.Lawful) {s : StreamState} (hs : s.doneFlag = false)
    (items : List Item) :
    let r := flatMap texts cfg s (terminateOnError items)
    TerminatedOnce texts (r.1 ++ doneSentinel r.2.doneFlag) ↔
      ∀ item ∈ afterDone items, isPing texts cfg item = true := by
  induction items generalizing s with
  | nil =>
    simp only [terminateOnError, flatMap, hs, doneSentinel, afterDone, List.nil_append]
    simpa using (terminatedOnce_cons_of_terminal isTerminal_done []).mpr (by simp)
  | cons item items ih =>
    cases item with
    | error message =>
      simp only [terminateOnError, flatMap, onItem, onError, doneSentinel, afterDone,
        List.append_nil, ↓reduceIte]
      rw [terminatedOnce_cons_of_terminal (isTerminal_error _ _)]
      simp [isDone]
    | ok event =>
      simp only [terminateOnError, flatMap]
      have hem := Emitted.of_onItem texts cfg s (.ok event)
      generalize onItem texts cfg s (.ok event) = r at hem ⊢
      cases hem with
      | done hdone =>
        have hafter : afterDone (.ok event :: items) = terminateOnError items := by
          simp [afterDone, terminateOnError, isDone, hdone]
        have hflag := doneFlag_flatMap texts cfg
          (onDone_doneFlag texts cfg s) (terminateOnError items)
        have hcomments := comments_flatMap_iff texts cfg
          (onDone texts cfg s).2 (terminateOnError items)
        rw [hafter, hflag, doneSentinel, if_pos rfl, List.append_nil, ← hcomments]
        rcases onDone_events texts cfg s with he | ⟨delta, he⟩
        · rw [he, List.singleton_append]
          exact terminatedOnce_cons_of_terminal isTerminal_done _
        · rw [he, List.cons_append, terminatedOnce_cons_of_not (not_isTerminal_flush h delta),
            List.singleton_append]
          exact terminatedOnce_cons_of_terminal isTerminal_done _
      | ping hping =>
        have hafter : afterDone (.ok event :: items) = afterDone items := by
          have hdone : event.data ≠ "[DONE]" := by
            rintro hdone
            simp [isPing, hdone] at hping
          simp [afterDone, terminateOnError, isDone, hdone]
        rw [hafter, List.append_assoc, List.singleton_append,
          terminatedOnce_cons_of_not (not_isTerminal_comment _)]
        exact ih hs
      | data hdone _ hterminal _ _ hflag =>
        have hafter : afterDone (.ok event :: items) = afterDone items := by
          simp [afterDone, terminateOnError, isDone, hdone]
        rw [hafter, List.append_assoc, List.singleton_append,
          terminatedOnce_cons_of_not (hterminal h)]
        exact ih (hflag.trans hs)

/-- The client gets one terminal marker and nothing but comments after it exactly if the upstream
sends nothing but pings after its first `[DONE]`. -/
theorem terminatedOnce_iff (h : texts.Lawful) (items : List Item) :
    TerminatedOnce texts (processStream texts cfg items) ↔
      ∀ item ∈ afterDone items, isPing texts cfg item = true :=
  terminatedOnce_flatMap_iff h rfl items

def tableTexts (parsed : List (String × Json)) : Texts where
  simdFromStr s := match parsed.lookup s with
    | some value => .ok value
    | none => .error s
  serdeFromStr s := parsed.lookup s
  render _ := "{}"

theorem tableTexts_lawful (parsed : List (String × Json)) : (tableTexts parsed).Lawful where
  render_ne _ := by
    show "{}" ≠ "[DONE]"
    decide
  rejected_ne s s' hs hne := by
    simp only [tableTexts] at hs
    split at hs
    · cases hs
    · cases hs
      exact hne

def plainChat : StreamConfig where
  isChat := true
  specialPrefix := ""
  thinkingFormat := .passthrough
  echoInboundModel := false
  modelName := "m"

theorem terminatedOnce_iff_ping :
    TerminatedOnce (tableTexts []) (processStream (tableTexts []) plainChat
        [.ok ⟨"message", "{}"⟩, .ok ⟨"message", "[DONE]"⟩, .ok ⟨"ping", "{}"⟩]) ↔
      ∀ item ∈ afterDone [.ok ⟨"message", "{}"⟩, .ok ⟨"message", "[DONE]"⟩, .ok ⟨"ping", "{}"⟩],
        isPing (tableTexts []) plainChat item = true :=
  terminatedOnce_iff (tableTexts_lawful []) _

theorem error_after_done :
    processStream (tableTexts []) plainChat
        [.ok ⟨"message", "[DONE]"⟩, .ok ⟨"message", "{}"⟩, .error "reset"] =
      [.done, .raw "{}", .error "m" "reset"] ∧
      ¬TerminatedOnce (tableTexts []) (processStream (tableTexts []) plainChat
        [.ok ⟨"message", "[DONE]"⟩, .ok ⟨"message", "{}"⟩, .error "reset"]) := by
  have hevents : processStream (tableTexts []) plainChat
      [.ok ⟨"message", "[DONE]"⟩, .ok ⟨"message", "{}"⟩, .error "reset"] =
        [.done, .raw "{}", .error "m" "reset"] := by
    have hmarker : hasEmptyChoicesMarker ['{', '}'] = false := by
      have hfind : findSub choicesKey ['{', '}'] = none := by decide
      rw [hasEmptyChoicesMarker]
      split
      · rfl
      · rename_i h
        cases hfind.symm.trans h
    have hping : isChatCompletionPing (tableTexts []) ⟨"message", "{}"⟩ = false := by decide
    simp [processStream, terminateOnError, flatMap, onItem, onEvent, onDone, onError, hmarker, hping,
      doneSentinel, StreamState.init, plainChat, StreamConfig.needsJsonRoundtrip,
      StreamConfig.applyThinking, StreamConfig.thinkingTarget]
  refine ⟨hevents, ?_⟩
  rw [hevents, terminatedOnce_cons_of_terminal isTerminal_done]
  intro h
  cases h (.raw "{}") (by simp)

end QueQiao.StreamHandler
