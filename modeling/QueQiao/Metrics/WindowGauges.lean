import Mathlib.Data.List.Infix
import QueQiao.Lib.Projection
import QueQiao.Metrics.RequestMetrics
import QueQiao.Metrics.SlidingWindow

namespace QueQiao.SlidingWindow

open Lib.Transition
open RequestMetrics (MetricEvent)

inductive Span
  | m1
  | m10
  | h1
  deriving DecidableEq

def spans : List Span := [.m1, .m10, .h1]

def nanosPerSec : ℕ := 1000000000

def Span.duration : Span → ℕ
  | .m1 => 60 * nanosPerSec
  | .m10 => 600 * nanosPerSec
  | .h1 => 3600 * nanosPerSec

inductive Family
  | ttft
  | latency
  | tps
  | rps
  | active
  | success
  deriving DecidableEq

/-- A place in one of the window maps, or `SUCCESS_WINDOW_OVERALL`. -/
inductive WindowId
  | keyed (family : Family) (span : Span) (key : String)
  | successOverall
  deriving DecidableEq

def WindowId.duration : WindowId → ℕ
  | .keyed _ span _ => span.duration
  | .successOverall => Span.h1.duration

def makeKey (model backend : String) : String := model ++ ":" ++ backend

inductive Statistic
  | max
  | intMax
  | avg
  | rate

inductive Gauge
  | ttftMax (span : Span) (model backend : String)
  | latencyMax (span : Span) (model backend : String)
  | activeMax (span : Span) (endpoint model backend : String)
  | successRate (span : Span) (endpoint model backend : String)
  | successOverall (endpoint model backend : String)
  | rps (endpoint : String)
  | tps (model backend : String)
  | tpsAvg (span : Span) (model backend : String)
  deriving DecidableEq

/-- The window that a gauge is computed from; `TPS` has none. -/
def Gauge.source : Gauge → Option (WindowId × Statistic)
  | .ttftMax span model backend => some (.keyed .ttft span (makeKey model backend), .max)
  | .latencyMax span model backend => some (.keyed .latency span (makeKey model backend), .max)
  | .activeMax span _ model backend => some (.keyed .active span (makeKey model backend), .intMax)
  | .successRate span _ model backend => some (.keyed .success span (makeKey model backend), .avg)
  | .successOverall _ _ _ => some (.successOverall, .avg)
  | .rps endpoint => some (.keyed .rps .m1 endpoint, .rate)
  | .tps _ _ => none
  | .tpsAvg span model backend => some (.keyed .tps span (makeKey model backend), .avg)

inductive Value (F : Type)
  | float (x : F)
  | int (n : ℤ)
  deriving DecidableEq

/-- The numbers with the conversions of the events' fields and `as i64`. -/
structure Numbers (F : Type) extends Floats F where
  ofRat : ℚ → F
  asI64 : F → ℤ

section Statistics

variable {F : Type} (num : Numbers F)

def Statistic.read (window : Window F) (now : ℕ) : Statistic → Value F × Window F
  | .max => ((window.max num.toFloats now).map .float id)
  | .intMax => (window.max num.toFloats now).map (.int ∘ num.asI64) id
  | .avg => (window.avg num.toFloats now).map .float id
  | .rate => (window.count now).map (fun n ↦ .float (num.div (num.ofNat n) (num.ofNat 60))) id

def Statistic.missing : Statistic → Value F
  | .intMax => .int (num.asI64 num.zero)
  | .max | .avg | .rate => .float num.zero

def Statistic.call : Statistic → Call F
  | .max | .intMax => .max
  | .avg => .avg
  | .rate => .count

def Statistic.IsReport (values : List F) (v : Value F) : Statistic → Prop
  | .max => ∃ m, v = .float m ∧ num.IsMaximum values m
  | .intMax => ∃ m, v = .int (num.asI64 m) ∧ num.IsMaximum values m
  | .avg => v = .float (num.average values)
  | .rate => v = .float (num.div (num.ofNat values.length) (num.ofNat 60))

end Statistics

/-- One access of a task to what the tasks share; each is atomic. -/
inductive Op (F : Type)
  | getOrCreate (w : WindowId)
  | push (w : WindowId) (value : F)
  | get (g : Gauge)
  | set (g : Gauge) (value : Value F)

section Tasks

variable {F : Type} (num : Numbers F)

def updateWindows (family : Family) (value : F) (key : String) : List (Op F) :=
  spans.flatMap fun span ↦
    [.getOrCreate (.keyed family span key), .push (.keyed family span key) value]

def updateSpans (gauge : Span → Gauge) : List (Op F) := spans.map fun span ↦ .get (gauge span)

def flag (success : Bool) : F := if success then num.ofNat 1 else num.zero

def recordTtft (ttft : F) (model backend : String) : List (Op F) :=
  updateWindows .ttft ttft (makeKey model backend) ++ updateSpans (.ttftMax · model backend)

/-- What the worker and the loggers of streams do with the tokens of a request. -/
def recordTps (completion : ℕ) (elapsed : ℚ) (model backend : String) : List (Op F) :=
  if 0 < completion ∧ 0 < elapsed then
    let tps := num.div (num.ofNat completion) (num.ofRat elapsed)
    .set (.tps model backend) (.float tps) ::
      (updateWindows .tps tps (makeKey model backend) ++ updateSpans (.tpsAvg · model backend))
  else []

/-- The windows and the gauges of `process_metric_event`; `active` is what `ACTIVE_REQUESTS` reads
at that time. -/
def recordEvent (event : MetricEvent) (active : F) : List (Op F) :=
  let key := makeKey event.model event.backend
  updateWindows .latency (num.ofRat event.latency) key ++
  [.push .successOverall (flag num event.isSuccess)] ++
  updateWindows .success (flag num event.isSuccess) key ++
  updateSpans (.latencyMax · event.model event.backend) ++
  updateWindows .active active key ++
  updateSpans (.activeMax · event.endpoint event.model event.backend) ++
  updateSpans (.successRate · event.endpoint event.model event.backend) ++
  [.get (.successOverall event.endpoint event.model event.backend)] ++
  updateWindows .rps (num.ofNat 1) event.endpoint ++
  [.get (.rps event.endpoint)] ++
  match event.completionTokens, event.promptTokens, event.elapsed with
  | some completion, some _, some elapsed =>
    recordTps num completion elapsed event.model event.backend
  | _, _, _ => []

inductive Task (F : Type)
  | worker (events : List (MetricEvent × F))
  | ttft (time : F) (model backend : String)
  | tps (completion : ℕ) (elapsed : ℚ) (model backend : String)

def Task.ops : Task F → List (Op F)
  | .worker events => events.flatMap fun event ↦ recordEvent num event.1 event.2
  | .ttft time model backend => recordTtft time model backend
  | .tps completion elapsed model backend => recordTps num completion elapsed model backend

/-- The windows, the gauges, and what is left of each task. -/
structure Metrics (F : Type) where
  windows : WindowId → Option (Window F)
  gauges : Gauge → Option (Value F)
  tasks : List (List (Op F))

/-- `SUCCESS_WINDOW_OVERALL` is there from its first use on. -/
def Metrics.init : Metrics F where
  windows := Function.update (fun _ ↦ none) .successOverall (some (.new Span.h1.duration))
  gauges := fun _ ↦ none
  tasks := []

def Metrics.setWindow (s : Metrics F) (w : WindowId) (window : Window F) : Metrics F :=
  { s with windows := Function.update s.windows w (some window) }

/-- An access, and what it makes the task do next. A push panics where there is no window. -/
def Metrics.access (s : Metrics F) (now : ℕ) : Op F → Option (Metrics F × List (Op F))
  | .getOrCreate w =>
    some (if (s.windows w).isSome then s else s.setWindow w (.new w.duration), [])
  | .push w value => (s.windows w).map fun window ↦ (s.setWindow w (window.push now value), [])
  | .get g =>
    match g.source with
    | none => some (s, [])
    | some (w, stat) =>
      match s.windows w with
      | none => some (s, [.set g (stat.missing num)])
      | some window =>
        let (value, window') := stat.read num window now
        some (s.setWindow w window', [.set g value])
  | .set g value => some ({ s with gauges := Function.update s.gauges g (some value) }, [])

inductive Action (F : Type)
  | spawn (task : Task F)
  | run (i now : ℕ)

def Metrics.step (s : Metrics F) : Action F → Option (Metrics F)
  | .spawn task => some { s with tasks := s.tasks ++ [task.ops num] }
  | .run i now =>
    match s.tasks[i]? with
    | some (op :: ops) =>
      (s.access num now op).map fun r ↦ { r.1 with tasks := r.1.tasks.set i (r.2 ++ ops) }
    | _ => none

end Tasks

section Runs

variable {F : Type} {num : Numbers F} {s t : Metrics F} {tr : List (Metrics F × Action F)}
  {w : WindowId}

def Metrics.next (s : Metrics F) : Action F → Option (Op F × ℕ)
  | .spawn _ => none
  | .run i now => (s.tasks[i]?.bind List.head?).map (·, now)

def Metrics.windowAt (s : Metrics F) (w : WindowId) : Window F :=
  (s.windows w).getD (.new w.duration)

def Op.call (w : WindowId) : Op F → Option (Call F)
  | .push w' value => if w' = w then some (.push value) else none
  | .get g => (g.source.filter (·.1 = w)).map (·.2.call)
  | .getOrCreate _ | .set _ _ => none

def Metrics.callOf (w : WindowId) (s : Metrics F) (a : Action F) : Option (Event F) :=
  (s.next a).bind fun r ↦ (r.1.call w).map (⟨r.2, ·⟩)

def calls (w : WindowId) (tr : List (Metrics F × Action F)) : List (Window F × Event F) :=
  project (·.windowAt w) (Metrics.callOf w) tr

def Action.now : Action F → Option ℕ
  | .spawn _ => none
  | .run _ now => some now

def Metrics.there (s : Metrics F) : Set WindowId := {w | (s.windows w).isSome}

def clocks (tr : List (Metrics F × Action F)) : List ℕ := tr.filterMap (·.2.now)

/-- The windows that a task uses are there, or the task gets or creates them before. -/
def Ready : Set WindowId → List (Op F) → Prop
  | _, [] => True
  | there, .getOrCreate w :: ops => Ready (insert w there) ops
  | there, .push w _ :: ops => w ∈ there ∧ Ready there ops
  | there, .get g :: ops => (∀ r ∈ g.source, r.1 ∈ there) ∧ Ready there ops
  | there, .set _ _ :: ops => Ready there ops

theorem Ready.mono {there there' : Set WindowId} (hsub : there ⊆ there') {ops : List (Op F)}
    (h : Ready there ops) : Ready there' ops := by
  induction ops generalizing there there' with
  | nil => trivial
  | cons op ops ih =>
    cases op with
    | getOrCreate w => exact ih (Set.insert_subset_insert hsub) h
    | push w value => exact ⟨hsub h.1, ih hsub h.2⟩
    | get g => exact ⟨fun r hr ↦ hsub (h.1 r hr), ih hsub h.2⟩
    | set g value => exact ih hsub h

def places (family : Family) (key : String) : Set WindowId :=
  {w | ∃ span, w = .keyed family span key}

theorem ready_updateWindows {there : Set WindowId} {family : Family} {value : F} {key : String}
    {ops : List (Op F)} (h : Ready (there ∪ places family key) ops) :
    Ready there (updateWindows family value key ++ ops) := by
  simp only [updateWindows, spans, List.flatMap_cons, List.flatMap_nil, List.cons_append,
    List.nil_append, Ready, Set.mem_insert_iff, true_or, true_and]
  refine h.mono ?_
  rintro w (hw | ⟨span, rfl⟩)
  · simp [hw]
  · cases span <;> simp

theorem ready_updateSpans {there : Set WindowId} {gauge : Span → Gauge} {ops : List (Op F)}
    (hgauge : ∀ span, ∀ r ∈ (gauge span).source, r.1 ∈ there) (h : Ready there ops) :
    Ready there (updateSpans gauge ++ ops) := by
  simp only [updateSpans, spans, List.map_cons, List.map_nil, List.cons_append, List.nil_append,
    Ready]
  exact ⟨hgauge _, hgauge _, hgauge _, h⟩

theorem ready_recordTtft {there : Set WindowId} (ttft : F) (model backend : String) :
    Ready there (recordTtft ttft model backend) := by
  rw [recordTtft, ← List.append_nil (updateSpans _)]
  refine ready_updateWindows (ready_updateSpans (fun span r hr ↦ ?_) trivial)
  cases hr
  exact .inr ⟨span, rfl⟩

theorem ready_recordTps {there : Set WindowId} (completion : ℕ) (elapsed : ℚ)
    (model backend : String) {ops : List (Op F)} (h : Ready there ops) :
    Ready there (recordTps num completion elapsed model backend ++ ops) := by
  rw [recordTps]
  split
  · rw [List.cons_append, List.append_assoc, Ready]
    refine ready_updateWindows (ready_updateSpans (fun span r hr ↦ ?_)
      (h.mono Set.subset_union_left))
    cases hr
    exact .inr ⟨span, rfl⟩
  · exact h

theorem ready_recordEvent {there : Set WindowId} (hall : .successOverall ∈ there)
    (event : MetricEvent) (active : F) {ops : List (Op F)} (h : Ready there ops) :
    Ready there (recordEvent num event active ++ ops) := by
  simp only [recordEvent, List.append_assoc, List.cons_append, List.nil_append]
  refine ready_updateWindows ⟨.inl hall, ready_updateWindows (ready_updateSpans ?_
    (ready_updateWindows (ready_updateSpans ?_ (ready_updateSpans ?_ ⟨?_, ready_updateWindows
      ⟨?_, ?_⟩⟩))))⟩
  · rintro span r hr
    cases hr
    exact .inl (.inr ⟨span, rfl⟩)
  · rintro span r hr
    cases hr
    exact .inr ⟨span, rfl⟩
  · rintro span r hr
    cases hr
    exact .inl (.inr ⟨span, rfl⟩)
  · rintro r hr
    cases hr
    exact .inl (.inl (.inl hall))
  · rintro r hr
    cases hr
    exact .inr ⟨.m1, rfl⟩
  · have hops : Ready (there ∪ places .latency (makeKey event.model event.backend) ∪
        places .success (makeKey event.model event.backend) ∪
        places .active (makeKey event.model event.backend) ∪ places .rps event.endpoint) ops :=
      h.mono fun w hw ↦ .inl (.inl (.inl (.inl hw)))
    split
    · exact ready_recordTps _ _ _ _ hops
    · exact hops

theorem ready_ops {there : Set WindowId} (hall : .successOverall ∈ there) (task : Task F) :
    Ready there (task.ops num) := by
  cases task with
  | worker events =>
    induction events with
    | nil => trivial
    | cons event events ih => exact ready_recordEvent hall event.1 event.2 ih
  | ttft time model backend => exact ready_recordTtft time model backend
  | tps completion elapsed model backend =>
    have h : Ready there (recordTps num completion elapsed model backend ++ []) :=
      ready_recordTps completion elapsed model backend trivial
    rwa [List.append_nil] at h

theorem Metrics.windowAt_setWindow (s : Metrics F) (w' : WindowId) (window : Window F)
    (w : WindowId) :
    (s.setWindow w' window).windowAt w = if w = w' then window else s.windowAt w := by
  rw [Metrics.windowAt, Metrics.setWindow]
  dsimp only
  by_cases h : w = w'
  · rw [if_pos h, h, Function.update_self, Option.getD_some]
  · rw [if_neg h, Function.update_of_ne h, Metrics.windowAt]

theorem Statistic.step_call (stat : Statistic) (window : Window F) (now : ℕ) :
    SlidingWindow.step num.toFloats window ⟨now, stat.call⟩ =
      some (stat.read num window now).2 := by
  cases stat <;> rfl

theorem Metrics.access_get {r : Metrics F × List (Op F)} {g : Gauge} {now : ℕ}
    (h : s.access num now (.get g) = some r) (hready : ∀ r ∈ g.source, r.1 ∈ s.there) :
    (g.source = none ∧ r = (s, [])) ∨ ∃ w stat window, g.source = some (w, stat) ∧
      s.windows w = some window ∧
      r = (s.setWindow w (stat.read num window now).2, [.set g (stat.read num window now).1]) := by
  rw [Metrics.access] at h
  cases hsource : g.source with
  | none =>
    rw [hsource] at h
    exact .inl ⟨rfl, (Option.some.inj h).symm⟩
  | some source =>
    obtain ⟨w, stat⟩ := source
    obtain ⟨window, hwindow⟩ := Option.isSome_iff_exists.mp (hready _ hsource)
    dsimp only at hwindow
    simp only [hsource, hwindow, Option.some.injEq] at h
    exact .inr ⟨w, stat, window, rfl, hwindow, h.symm⟩

theorem Metrics.windowAt_access {r : Metrics F × List (Op F)} {op : Op F} {now : ℕ}
    (h : s.access num now op = some r) (hready : Ready s.there [op]) :
    (op.call w = none → r.1.windowAt w = s.windowAt w) ∧
      ∀ c, op.call w = some c → SlidingWindow.step num.toFloats (s.windowAt w) ⟨now, c⟩ =
        some (r.1.windowAt w) := by
  cases op with
  | getOrCreate w' =>
    refine ⟨fun _ ↦ ?_, fun c hc ↦ by cases hc⟩
    obtain rfl := Option.some.inj h
    split
    · rfl
    · rename_i hnone
      rw [Metrics.windowAt_setWindow]
      split
      · rename_i heq
        rw [Metrics.windowAt, heq, Option.not_isSome_iff_eq_none.mp hnone, Option.getD_none]
      · rfl
  | push w' value =>
    obtain ⟨window, hwindow, rfl⟩ := Option.map_eq_some_iff.mp h
    rw [Metrics.windowAt_setWindow, Op.call]
    by_cases hw : w' = w
    · subst hw
      refine ⟨fun hc ↦ by simp at hc, fun c hc ↦ ?_⟩
      obtain rfl := Option.some.inj ((if_pos rfl).symm.trans hc)
      rw [if_pos rfl, Metrics.windowAt, hwindow, Option.getD_some, SlidingWindow.step]
    · rw [if_neg hw, if_neg (Ne.symm hw)]
      exact ⟨fun _ ↦ rfl, fun c hc ↦ by cases hc⟩
  | get g =>
    rw [Op.call]
    rcases Metrics.access_get h hready.1 with
      ⟨hsource, rfl⟩ | ⟨w', stat, window, hsource, hwindow, rfl⟩
    · rw [hsource]
      exact ⟨fun _ ↦ rfl, fun c hc ↦ by cases hc⟩
    · rw [hsource, Metrics.windowAt_setWindow, Option.filter_some]
      by_cases hw : w' = w
      · subst hw
        refine ⟨fun hc ↦ by simp at hc, fun c hc ↦ ?_⟩
        simp only [decide_true, if_true, Option.map_some, Option.some.injEq] at hc
        rw [if_pos rfl, Metrics.windowAt, hwindow, Option.getD_some, ← hc, Statistic.step_call]
      · rw [if_neg (Ne.symm hw), if_neg (by simpa using hw)]
        exact ⟨fun _ ↦ rfl, fun c hc ↦ by cases hc⟩
  | set g value =>
    obtain rfl := Option.some.inj h
    exact ⟨fun _ ↦ rfl, fun c hc ↦ by cases hc⟩

structure Prepared (s : Metrics F) : Prop where
  overall : .successOverall ∈ s.there
  ready : ∀ ops ∈ s.tasks, Ready s.there ops

theorem prepared_init : Prepared (.init : Metrics F) where
  overall := by simp [Metrics.there, Metrics.init]
  ready := by simp [Metrics.init]

theorem Metrics.there_setWindow (s : Metrics F) (w : WindowId) (window : Window F) :
    insert w s.there ⊆ (s.setWindow w window).there := by
  intro w' hw
  rw [Metrics.there, Set.mem_ofPred_eq, Metrics.setWindow]
  dsimp only
  by_cases h : w' = w
  · rw [h, Function.update_self, Option.isSome_some]
  · rw [Function.update_of_ne h]
    exact hw.resolve_left h

theorem Metrics.there_access {r : Metrics F × List (Op F)} {op : Op F} {ops : List (Op F)}
    {now : ℕ} (h : s.access num now op = some r) (hready : Ready s.there (op :: ops)) :
    r.1.tasks = s.tasks ∧ s.there ⊆ r.1.there ∧ Ready r.1.there (r.2 ++ ops) := by
  cases op with
  | getOrCreate w =>
    obtain rfl := Option.some.inj h
    have hsub : insert w s.there ⊆
        (if (s.windows w).isSome = true then s else s.setWindow w (.new w.duration)).there := by
      split
      · rename_i hsome
        exact Set.insert_subset hsome subset_rfl
      · exact s.there_setWindow w _
    refine ⟨?_, (Set.subset_insert w _).trans hsub, Ready.mono hsub hready⟩
    dsimp only
    split <;> rfl
  | push w value =>
    obtain ⟨window, -, rfl⟩ := Option.map_eq_some_iff.mp h
    have hsub := (Set.subset_insert w _).trans (s.there_setWindow w (window.push now value))
    exact ⟨rfl, hsub, hready.2.mono hsub⟩
  | get g =>
    rcases Metrics.access_get h hready.1 with ⟨-, rfl⟩ | ⟨w, stat, window, -, -, rfl⟩
    · exact ⟨rfl, subset_rfl, hready.2⟩
    · have hsub :=
        (Set.subset_insert w _).trans (s.there_setWindow w (stat.read num window now).2)
      exact ⟨rfl, hsub, hready.2.mono hsub⟩
  | set g value =>
    obtain rfl := Option.some.inj h
    exact ⟨rfl, subset_rfl, hready⟩

theorem Metrics.step_run {i now : ℕ} (h : s.step num (.run i now) = some t) :
    ∃ op ops r, s.tasks[i]? = some (op :: ops) ∧ s.access num now op = some r ∧
      t = { r.1 with tasks := r.1.tasks.set i (r.2 ++ ops) } := by
  rw [Metrics.step] at h
  split at h
  · rename_i op ops htask
    obtain ⟨r, hr, rfl⟩ := Option.map_eq_some_iff.mp h
    exact ⟨op, ops, r, htask, hr, rfl⟩
  · cases h

theorem prepared_step {a : Action F} (h : Prepared s) (hs : s.step num a = some t) :
    Prepared t := by
  cases a with
  | spawn task =>
    obtain rfl := Option.some.inj hs
    refine ⟨h.overall, fun ops hops ↦ ?_⟩
    rcases List.mem_append.mp hops with hold | hnew
    · exact h.ready ops hold
    · rw [List.mem_singleton.mp hnew]
      exact ready_ops h.overall task
  | run i now =>
    obtain ⟨op, ops, r, htask, hr, rfl⟩ := Metrics.step_run hs
    obtain ⟨htasks, hsub, hready⟩ :=
      Metrics.there_access hr (h.ready _ (List.mem_of_getElem? htask))
    refine ⟨hsub h.overall, fun ops' hops' ↦ ?_⟩
    rcases List.mem_or_eq_of_mem_set hops' with hold | rfl
    · exact (h.ready ops' (htasks ▸ hold)).mono hsub
    · exact hready

theorem prepared_run (h : Path (Metrics.step num) .init tr s) :
    Always Prepared tr s :=
  h.always prepared_init fun _ _ _ ↦ prepared_step

theorem Ready.head {there : Set WindowId} {op : Op F} {ops : List (Op F)}
    (h : Ready there (op :: ops)) : Ready there [op] := by
  cases op with
  | getOrCreate | set => trivial
  | push | get => exact ⟨h.1, trivial⟩

theorem window_run (h : Path (Metrics.step num) .init tr s) (w : WindowId) :
    Path (SlidingWindow.step num.toFloats) (.new w.duration) (calls w tr) (s.windowAt w) := by
  have hinit : (Metrics.init : Metrics F).windowAt w = .new w.duration := by
    cases w <;> rfl
  have haccess (s t : Metrics F) (a : Action F) (hprepared : Prepared s)
      (hs : s.step num a = some t) : (s.callOf w a = none → t.windowAt w = s.windowAt w) ∧
        ∀ e, s.callOf w a = some e →
          SlidingWindow.step num.toFloats (s.windowAt w) e = some (t.windowAt w) := by
    cases a with
    | spawn task =>
      obtain rfl := Option.some.inj hs
      exact ⟨fun _ ↦ rfl, fun e he ↦ by cases he⟩
    | run i now =>
      obtain ⟨op, ops, r, htask, hr, rfl⟩ := Metrics.step_run hs
      obtain ⟨hquiet, hcall⟩ := Metrics.windowAt_access (w := w) hr
        (hprepared.ready _ (List.mem_of_getElem? htask)).head
      rw [Metrics.callOf, Metrics.next, htask, Option.bind_some, List.head?_cons, Option.map_some,
        Option.bind_some]
      refine ⟨fun hnone ↦ hquiet (Option.map_eq_none_iff.mp hnone), fun e he ↦ ?_⟩
      obtain ⟨c, hc, rfl⟩ := Option.map_eq_some_iff.mp he
      exact hcall c hc
  rw [← hinit]
  exact h.project (·.windowAt w) (Metrics.callOf w) (prepared_run h).1
    (fun s a t hs hst ↦ (haccess s t a hs hst).1) fun s a t e hs hst ↦ (haccess s t a hs hst).2 e

theorem filterMap_sublist {α β : Type*} {f g : α → Option β}
    (h : ∀ a b, f a = some b → g a = some b) (l : List α) :
    (l.filterMap f).Sublist (l.filterMap g) := by
  induction l with
  | nil => exact .refl _
  | cons a l ih =>
    rw [List.filterMap_cons, List.filterMap_cons]
    cases hf : f a with
    | some b =>
      rw [h a b hf]
      exact ih.cons_cons b
    | none =>
      cases g a with
      | some b => exact ih.cons b
      | none => exact ih

theorem nonDecreasing_calls {now : ℕ} (h : (clocks tr ++ [now]).Pairwise (· ≤ ·)) (w : WindowId) :
    NonDecreasing (calls w tr) now := by
  rw [NonDecreasing, calls, project, List.map_filterMap]
  refine h.sublist (List.Sublist.append (filterMap_sublist (fun p n hn ↦ ?_) tr) (.refl _))
  obtain ⟨e, he, rfl⟩ := Option.map_eq_some_iff.mp hn
  obtain ⟨e, hcall, rfl⟩ := Option.map_eq_some_iff.mp he
  obtain ⟨⟨op, now⟩, hnext, hop⟩ := Option.bind_eq_some_iff.mp hcall
  obtain ⟨c, -, rfl⟩ := Option.map_eq_some_iff.mp hop
  obtain ⟨u, a⟩ := p
  cases a with
  | spawn task => cases hnext
  | run i now' =>
    obtain ⟨op', -, heq⟩ := Option.map_eq_some_iff.mp hnext
    cases heq
    rfl

theorem Statistic.isReport_read {window : Window F} {tr' : List (Window F × Event F)}
    {duration now : ℕ}
    (h : Path (SlidingWindow.step num.toFloats) (.new duration) tr' window)
    (hclock : NonDecreasing tr' now) (stat : Statistic) :
    stat.IsReport num (live duration now tr') (stat.read num window now).1 := by
  have hdata : (window.removeExpired now).data.map Prod.fst = live duration now tr' := by
    rw [(retains_run h).data_removeExpired hclock, live]
  rw [← hdata]
  cases stat with
  | max => exact ⟨_, rfl, isMaximum_foldl _⟩
  | intMax => exact ⟨_, rfl, isMaximum_foldl _⟩
  | avg =>
    rw [Statistic.IsReport, Statistic.read, Window.avg, Floats.average, Floats.sum,
      List.isEmpty_map, List.length_map]
    split <;> rfl
  | rate =>
    rw [Statistic.IsReport, List.length_map]
    rfl

/-- At some time of the run a task read the value for the gauge: it is the gauge's statistic over
what had been pushed into its window until then and was not yet too old. -/
def Reported (num : Numbers F) (tr : List (Metrics F × Action F)) (g : Gauge) (v : Value F) :
    Prop :=
  ∃ w stat before u i now after, g.source = some (w, stat) ∧
    tr = before ++ (u, .run i now) :: after ∧ u.next (.run i now) = some (.get g, now) ∧
    stat.IsReport num (live w.duration now (calls w before)) v

theorem Reported.append {g : Gauge} {v : Value F} (h : Reported num tr g v)
    (tr' : List (Metrics F × Action F)) : Reported num (tr ++ tr') g v := by
  obtain ⟨w, stat, before, u, i, now, after, hsource, rfl, hnext, hreport⟩ := h
  exact ⟨w, stat, before, u, i, now, after ++ tr', hsource, by simp, hnext, hreport⟩

/-- What the gauges show and what the tasks are about to set has been read. -/
structure Shown (num : Numbers F) (tr : List (Metrics F × Action F)) (s : Metrics F) : Prop where
  pending : ∀ ops ∈ s.tasks, ∀ g v, .set g v ∈ ops → g.source ≠ none → Reported num tr g v
  gauges : ∀ g v, s.gauges g = some v → g.source ≠ none → Reported num tr g v

theorem set_mem_updates {g : Gauge} {v : Value F} :
    (∀ family value key, .set g v ∉ updateWindows family value key) ∧
      ∀ gauge, (.set g v : Op F) ∉ updateSpans gauge := by
  simp [updateWindows, updateSpans, spans]

theorem set_mem_recordTps {completion : ℕ} {elapsed : ℚ} {model backend : String} {g : Gauge}
    {v : Value F} (h : .set g v ∈ recordTps num completion elapsed model backend) :
    g.source = none := by
  rw [recordTps] at h
  split at h
  · simp only [List.mem_cons, List.mem_append, set_mem_updates.1, set_mem_updates.2, or_false,
      Op.set.injEq] at h
    rw [h.1, Gauge.source]
  · exact absurd h List.not_mem_nil

theorem set_mem_ops {task : Task F} {g : Gauge} {v : Value F} (h : .set g v ∈ task.ops num) :
    g.source = none := by
  cases task with
  | worker events =>
    obtain ⟨event, -, hmem⟩ := List.mem_flatMap.mp h
    simp only [recordEvent, List.mem_append, List.mem_singleton, reduceCtorEq, set_mem_updates.1,
      set_mem_updates.2, false_or] at hmem
    split at hmem
    · exact set_mem_recordTps hmem
    · exact absurd hmem List.not_mem_nil
  | ttft time model backend =>
    rcases List.mem_append.mp h with hmem | hmem
    · exact (set_mem_updates.1 _ _ _ hmem).elim
    · exact (set_mem_updates.2 _ hmem).elim
  | tps completion elapsed model backend => exact set_mem_recordTps h

theorem Metrics.access_set {r : Metrics F × List (Op F)} {op : Op F} {now : ℕ}
    (h : s.access num now op = some r) (hready : Ready s.there [op]) (g : Gauge) (v : Value F) :
    (.set g v ∈ r.2 → op = .get g ∧ ∃ w stat, g.source = some (w, stat) ∧
      v = (stat.read num (s.windowAt w) now).1) ∧
    (r.1.gauges g = some v → s.gauges g = some v ∨ op = .set g v) := by
  cases op with
  | getOrCreate w =>
    obtain rfl := Option.some.inj h
    refine ⟨fun hmem ↦ absurd hmem List.not_mem_nil, fun hg ↦ .inl ?_⟩
    split at hg <;> exact hg
  | push w value =>
    obtain ⟨window, -, rfl⟩ := Option.map_eq_some_iff.mp h
    exact ⟨fun hmem ↦ absurd hmem List.not_mem_nil, .inl⟩
  | get g' =>
    rcases Metrics.access_get h hready.1 with
      ⟨-, rfl⟩ | ⟨w, stat, window, hsource, hwindow, rfl⟩
    · exact ⟨fun hmem ↦ absurd hmem List.not_mem_nil, .inl⟩
    · refine ⟨fun hmem ↦ ?_, .inl⟩
      cases List.mem_singleton.mp hmem
      refine ⟨rfl, w, stat, hsource, ?_⟩
      rw [Metrics.windowAt, hwindow, Option.getD_some]
  | set g' value =>
    obtain rfl := Option.some.inj h
    refine ⟨fun hmem ↦ absurd hmem List.not_mem_nil, fun hg ↦ ?_⟩
    dsimp only at hg
    by_cases hgg : g = g'
    · subst hgg
      rw [Function.update_self] at hg
      exact .inr (by rw [Option.some.inj hg])
    · rw [Function.update_of_ne hgg] at hg
      exact .inl hg

theorem Shown.step {a : Action F} (h : Shown num tr s) (hrun : Path (Metrics.step num) .init tr s)
    (hs : s.step num a = some t) (hclock : (clocks (tr ++ [(s, a)])).Pairwise (· ≤ ·)) :
    Shown num (tr ++ [(s, a)]) t := by
  cases a with
  | spawn task =>
    obtain rfl := Option.some.inj hs
    refine ⟨fun ops hops g v hmem hsource ↦ ?_, fun g v hg hsource ↦ ?_⟩
    · rcases List.mem_append.mp hops with hold | hnew
      · exact (h.pending ops hold g v hmem hsource).append _
      · rw [List.mem_singleton.mp hnew] at hmem
        exact absurd (set_mem_ops hmem) hsource
    · exact (h.gauges g v hg hsource).append _
  | run i now =>
    obtain ⟨op, ops, r, htask, hr, rfl⟩ := Metrics.step_run hs
    have hready := (prepared_run hrun).2.ready _ (List.mem_of_getElem? htask)
    obtain ⟨htasks, -, -⟩ := Metrics.there_access hr hready
    have hset := Metrics.access_set hr hready.head
    refine ⟨fun ops' hops' g v hmem hsource ↦ ?_, fun g v hg hsource ↦ ?_⟩
    · rcases List.mem_or_eq_of_mem_set hops' with hold | rfl
      · exact (h.pending ops' (htasks ▸ hold) g v hmem hsource).append _
      · rcases List.mem_append.mp hmem with hread | hrest
        · -- the task has just read the value
          obtain ⟨rfl, w, stat, hw, rfl⟩ := (hset g v).1 hread
          have hclocks : clocks (tr ++ [(s, .run i now)]) = clocks tr ++ [now] := by
            rw [clocks, List.filterMap_append]
            rfl
          rw [hclocks] at hclock
          refine ⟨w, stat, tr, s, i, now, [], hw, rfl, ?_,
            Statistic.isReport_read (window_run hrun w) (nonDecreasing_calls hclock w) stat⟩
          rw [Metrics.next, htask, Option.bind_some, List.head?_cons, Option.map_some]
        · exact (h.pending _ (List.mem_of_getElem? htask) g v (List.mem_cons_of_mem _ hrest)
            hsource).append _
    · rcases (hset g v).2 hg with hold | rfl
      · exact (h.gauges g v hold hsource).append _
      · exact (h.pending _ (List.mem_of_getElem? htask) g v List.mem_cons_self hsource).append _

theorem shown_run (h : Path (Metrics.step num) .init tr s)
    (hclock : (clocks tr).Pairwise (· ≤ ·)) : Shown num tr s := by
  induction h with
  | nil => exact ⟨fun ops hops ↦ absurd hops List.not_mem_nil, fun g v hg ↦ by cases hg⟩
  | @snoc tr u v a hrun hs ih =>
    have hbefore : (clocks tr).Pairwise (· ≤ ·) := by
      rw [clocks, List.filterMap_append] at hclock
      exact (List.pairwise_append.mp hclock).1
    exact (ih hbefore).step hrun hs hclock

theorem Metrics.access_isSome {op : Op F} {ops : List (Op F)} (h : Ready s.there (op :: ops))
    (now : ℕ) : (s.access num now op).isSome := by
  cases op with
  | push w value =>
    obtain ⟨window, hwindow⟩ := Option.isSome_iff_exists.mp h.1
    rw [Metrics.access, hwindow, Option.map_some, Option.isSome_some]
  | getOrCreate | set => rfl
  | get g =>
    rw [Metrics.access]
    split
    · rfl
    · split <;> rfl

theorem append_cons_inj {α : Type*} {a : α} {l l' r r' : List α} (h : a ∉ r) (h' : a ∉ r')
    (heq : l ++ a :: r = l' ++ a :: r') : l = l' ∧ r = r' := by
  have hstep {l l' r r' c : List α} (hr : a ∉ r) (hl : l' = l ++ c) (heq : a :: r = c ++ a :: r') :
      l = l' ∧ r = r' := by
    cases c with
    | nil => exact ⟨by rw [hl, List.append_nil], (List.cons.inj heq).2⟩
    | cons x c =>
      rw [(List.cons.inj heq).2] at hr
      exact absurd (List.mem_append_right _ List.mem_cons_self) hr
  rcases List.append_eq_append_iff.mp heq with ⟨c, hl, hr⟩ | ⟨c, hl, hr⟩
  · exact hstep h hl hr
  · exact (hstep h' hl hr).imp Eq.symm Eq.symm

theorem makeKey_inj {model model' backend backend' : String} (h : ':' ∉ backend.toList)
    (h' : ':' ∉ backend'.toList) (heq : makeKey model backend = makeKey model' backend') :
    model = model' ∧ backend = backend' := by
  have hlists := congrArg String.toList heq
  simp only [makeKey, String.toList_append, List.append_assoc] at hlists
  obtain ⟨hmodel, hbackend⟩ := append_cons_inj h h' hlists
  exact ⟨String.toList_inj.mp hmodel, String.toList_inj.mp hbackend⟩

end Runs

/-- However the worker and the loggers of streams interleave over the windows and the gauges, none
of them is stuck for want of a window, and a gauge shows what a task has read for it: the maximum,
average or rate of exactly what had been pushed under its key within the window's time. -/
theorem gauges_reported {F : Type} {num : Numbers F} {tr : List (Metrics F × Action F)}
    {s : Metrics F} (h : Path (Metrics.step num) .init tr s)
    (hclock : (clocks tr).Pairwise (· ≤ ·)) :
    (∀ i op ops now, s.tasks[i]? = some (op :: ops) → (s.step num (.run i now)).isSome) ∧
    ∀ g v, s.gauges g = some v → g.source ≠ none → Reported num tr g v := by
  refine ⟨fun i op ops now htask ↦ ?_, (shown_run h hclock).gauges⟩
  have hready := (prepared_run h).2.ready _ (List.mem_of_getElem? htask)
  rw [Metrics.step, htask, Option.isSome_map]
  exact Metrics.access_isSome hready now

def rationalNumbers : Numbers (Option ℚ) where
  toFloats := rationals
  ofRat := some
  asI64 x := (x.map fun q ↦ q.num.tdiv q.den).getD 0

def twoStreams : List (Action (Option ℚ)) :=
  [.spawn (.ttft (some (1 / 2)) "m" "b"), .spawn (.ttft (some 3) "m" "b")] ++
    (List.range 24).map fun k ↦ .run (k % 2) k

theorem gauges_reported_twoStreams :
    ∃ tr s, Path (Metrics.step rationalNumbers) .init tr s ∧
      s.gauges (.ttftMax .m1 "m" "b") = some (.float (some 3)) ∧
      Reported rationalNumbers tr (.ttftMax .m1 "m" "b") (.float (some 3)) := by
  have hrun : (trace (Metrics.step rationalNumbers) .init twoStreams).map
      (fun r ↦ (r.2.gauges (.ttftMax .m1 "m" "b"), clocks r.1)) =
      some (some (.float (some 3)), List.range 24) := by
    decide +kernel
  obtain ⟨⟨tr, s⟩, hr, hs⟩ := Option.map_eq_some_iff.mp hrun
  obtain ⟨hgauge, hclocks⟩ := Prod.mk.inj hs
  have hclock : (clocks tr).Pairwise (· ≤ ·) := by
    rw [hclocks]
    decide
  have hpath := Path.of_trace hr
  exact ⟨tr, s, hpath, hgauge, (gauges_reported hpath hclock).2 _ _ hgauge (by simp [Gauge.source])⟩

end QueQiao.SlidingWindow
