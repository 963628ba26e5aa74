import QueQiao.Lib.Aggregation
import QueQiao.Models.Http

namespace QueQiao.RequestMetrics

open Lib.Aggregation

structure MetricEvent where
  endpoint : String
  status : String
  model : String
  backend : String
  latency : ℚ
  isSuccess : Bool
  completionTokens : Option ℕ
  promptTokens : Option ℕ
  elapsed : Option ℚ
  deriving DecidableEq

structure RequestLabels where
  endpoint : String
  status : String
  model : String
  backend : String
  deriving DecidableEq

inductive TokenKind
  | completion
  | prompt
  deriving DecidableEq

/-- The counters of Prometheus that a request can raise: `REQUESTS_TOTAL`, `TOKENS_TOTAL` and
`TOKENS_MISSING_TOTAL`. -/
structure Counters where
  requestsTotal : GroupMap RequestLabels ℕ
  tokensTotal : GroupMap (String × TokenKind) ℕ
  tokensMissingTotal : GroupMap ActiveRequestLabels ℕ

namespace Counters

/-- `inc_by` for the two kinds of tokens. -/
def incTokens (model : String) (completion prompt : ℕ) (c : Counters) : Counters :=
  { c with
    tokensTotal :=
      (c.tokensTotal.entry (model, .completion) completion).entry (model, .prompt) prompt }

/-- The value of `REQUESTS_TOTAL` over all labels. -/
def requests (c : Counters) : ℕ := c.requestsTotal.sumOver fun _ n ↦ n

/-- The value of `TOKENS_TOTAL` for one kind, over all models. -/
def tokensOf (kind : TokenKind) (c : Counters) : ℕ :=
  c.tokensTotal.sumOver fun labels n ↦ if labels.2 = kind then n else 0

def tokens (c : Counters) : ℕ × ℕ := (c.tokensOf .completion, c.tokensOf .prompt)

end Counters

def MetricEvent.labels (event : MetricEvent) : RequestLabels where
  endpoint := event.endpoint
  status := event.status
  model := event.model
  backend := event.backend

def processMetricEvent (event : MetricEvent) (c : Counters) : Counters :=
  let counted := { c with requestsTotal := c.requestsTotal.entry event.labels 1 }
  match event.completionTokens, event.promptTokens, event.elapsed with
  | some completion, some prompt, some _ => counted.incTokens event.model completion prompt
  | _, _, _ =>
    let labels : ActiveRequestLabels := ⟨event.endpoint, event.model, event.backend⟩
    { counted with tokensMissingTotal := counted.tokensMissingTotal.entry labels 1 }

section Middleware

def llmMetricEndpoints : List String := [
  "/v1/chat/completions",
  "/v1/responses",
  "/v1/messages",
  "/v1/completions",
  "/v1/embeddings",
  "/v1/audio/transcriptions",
  "/v1/audio/translations",
  "/v1/rerank",
  "/rerank",
  "/score",
  "/classify"]

def shouldSkipMetrics (endpoint : String) : Bool := endpoint ∉ llmMetricEndpoints

/-- The event of the middleware. A response with the marker of a stream has none. -/
def metricsMiddleware (endpoint initialModel : String) (elapsed : ℚ) (response : Response) :
    Option MetricEvent :=
  if shouldSkipMetrics endpoint || response.streamingMarker then none
  else
    some
      { endpoint := endpoint
        status := toString response.status.asU16
        model := (response.log.map (·.model)).getD initialModel
        backend := (response.log.map (·.backend)).getD "pending"
        latency := elapsed
        isSuccess := response.status.asU16 = 200
        completionTokens := none
        promptTokens := none
        elapsed := none }

end Middleware

section Growth

variable {c : Counters}

/-- The tokens that the worker adds for an event: of both kinds, or of none. -/
def MetricEvent.tokens (event : MetricEvent) : ℕ × ℕ :=
  match event.completionTokens, event.promptTokens, event.elapsed with
  | some completion, some prompt, some _ => (completion, prompt)
  | _, _, _ => 0

theorem sumOver_entry {κ : Type} [DecidableEq κ] {f : κ → ℕ → ℕ}
    (hf : ∀ k m m', f k (m + m') = f k m + f k m') (g : GroupMap κ ℕ) (k : κ) (n : ℕ) :
    (g.entry k n).sumOver f = g.sumOver f + f k n := by
  rw [GroupMap.entry, GroupMap.sumOver_add hf, GroupMap.sumOver_single]

theorem tokensOf_incTokens (model : String) (completion prompt : ℕ) (kind : TokenKind) :
    (c.incTokens model completion prompt).tokensOf kind = c.tokensOf kind +
      ((if .completion = kind then completion else 0) + if .prompt = kind then prompt else 0) := by
  have hadd (labels : String × TokenKind) (m n : ℕ) :
      (if labels.2 = kind then m + n else 0) =
        (if labels.2 = kind then m else 0) + if labels.2 = kind then n else 0 := by
    split <;> rfl
  rw [Counters.tokensOf, Counters.incTokens, sumOver_entry hadd, sumOver_entry hadd, add_assoc]
  rfl

@[simp] theorem requests_incTokens (model : String) (completion prompt : ℕ) :
    (c.incTokens model completion prompt).requests = c.requests := rfl

@[simp] theorem tokens_incTokens (model : String) (completion prompt : ℕ) :
    (c.incTokens model completion prompt).tokens = c.tokens + (completion, prompt) := by
  rw [Counters.tokens, tokensOf_incTokens, tokensOf_incTokens]
  exact Prod.ext rfl (congrArg (c.tokensOf .prompt + ·) (Nat.zero_add prompt))

theorem requests_processMetricEvent (event : MetricEvent) :
    (processMetricEvent event c).requests = c.requests + 1 := by
  have hcounted : (c.requestsTotal.entry event.labels 1).sumOver (fun _ n ↦ n) = c.requests + 1 :=
    sumOver_entry (fun _ _ _ ↦ rfl) _ _ _
  rw [processMetricEvent]
  split <;> exact hcounted

theorem tokens_processMetricEvent (event : MetricEvent) :
    (processMetricEvent event c).tokens = c.tokens + event.tokens := by
  rw [processMetricEvent, MetricEvent.tokens]
  split
  · exact tokens_incTokens ..
  · rfl

end Growth

end QueQiao.RequestMetrics
