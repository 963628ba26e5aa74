import QueQiao.Handlers.AudioHandler
import QueQiao.Handlers.RequestBody
import QueQiao.Services.FallbackLoop
import QueQiao.Services.LastRound

namespace QueQiao.Dispatcher

section Dispatched

variable (X : Externals) (config : Config) (routingKeys : Option (List (String × ℕ)))
  (endpoint : Option String)

def dispatched : ℕ → (ℕ → Visit) → String → ExecState → List (String × Attempt)
  | 0, _, _, _ => []
  | fuel + 1, visits, currentModel, s =>
    let round := executeRound X config routingKeys endpoint (visits 0) currentModel
      { s with attempts := [] }
    round.2.attempts.map (fun a ↦ (currentModel, a)) ++
      match round.1 with
      | .finish _ => []
      | .switch model => dispatched fuel (fun k ↦ visits (k + 1)) model round.2

variable {X config routingKeys endpoint}

theorem executeRound_attempts (visit : Visit) (currentModel : String) (s : ExecState) :
    executeRound X config routingKeys endpoint visit currentModel s =
      ((executeRound X config routingKeys endpoint visit currentModel
          { s with attempts := [] }).1,
        { (executeRound X config routingKeys endpoint visit currentModel
            { s with attempts := [] }).2 with
          attempts := s.attempts ++ (executeRound X config routingKeys endpoint visit currentModel
            { s with attempts := [] }).2.attempts }) := by
  simp only [executeRound]
  cases resolveClients X config routingKeys endpoint visit currentModel with
  | error e => simp
  | ok clients =>
    dsimp only
    cases (executeClientChainWithRegistry X currentModel visit.encounters clients s.registry
      s.triedClients).1 with
    | ok response => rfl
    | error fallback =>
      cases fallback with
      | none => rfl
      | some model => rfl

theorem dispatched_attempts (fuel : ℕ) (visits : ℕ → Visit) (currentModel : String)
    (s : ExecState) (attempts : List Attempt) :
    dispatched X config routingKeys endpoint fuel visits currentModel
        { s with attempts := attempts } =
      dispatched X config routingKeys endpoint fuel visits currentModel s := by
  cases fuel with
  | zero => rfl
  | succ fuel => rfl

theorem executeLoop_dispatched {fuel : ℕ} {visits : ℕ → Visit} {currentModel : String}
    {s s' : ExecState} {resp : Response}
    (h : executeLoop X config routingKeys endpoint fuel visits currentModel s = some (resp, s')) :
    s'.attempts = s.attempts ++
      (dispatched X config routingKeys endpoint fuel visits currentModel s).map Prod.snd := by
  induction fuel generalizing visits currentModel s with
  | zero => cases h
  | succ fuel ih =>
    rw [executeLoop, executeRound_attempts] at h
    rw [dispatched]
    generalize executeRound X config routingKeys endpoint (visits 0) currentModel
      { s with attempts := [] } = round at h ⊢
    obtain ⟨result, next⟩ := round
    have hmap : (next.attempts.map fun a ↦ (currentModel, a)).map Prod.snd = next.attempts := by
      rw [List.map_map]
      exact List.map_id _
    cases result with
    | finish resp' =>
      cases h
      rw [List.append_nil, hmap]
    | switch model =>
      have hrest := ih h
      rw [dispatched_attempts] at hrest
      rw [hrest, List.map_append, hmap, List.append_assoc]

theorem dispatched_results {P : String → ClientConfig → Except AppError Response → Prop}
    {fuel : ℕ} {visits : ℕ → Visit} {currentModel : String} {s : ExecState}
    (hP : ∀ k i client model, P model client (((visits k).encounters i).answer client model)) :
    ∀ d ∈ dispatched X config routingKeys endpoint fuel visits currentModel s,
      P d.1 d.2.client d.2.result := by
  induction fuel generalizing visits currentModel s with
  | zero =>
    intro d hd
    cases hd
  | succ fuel ih =>
    intro d hd
    rw [dispatched] at hd
    rcases List.mem_append.mp hd with hd | hd
    · obtain ⟨a, ha, rfl⟩ := List.mem_map.mp hd
      exact executeRound_results (fun i client ↦ hP 0 i client currentModel)
        (fun b hb ↦ absurd hb List.not_mem_nil) a ha
    · split at hd
      · cases hd
      · exact ih (fun k ↦ hP (k + 1)) d hd

end Dispatched

end QueQiao.Dispatcher

namespace QueQiao.UpstreamModel

open AudioHandler Dispatcher RequestBody

inductive Request
  | json (payload : Payload)
  | audio (modelName : String) (cachedParts : List CachedPart)

inductive Sent
  | body (fields : Json.Fields)
  | form (parts : List CachedPart)

def Request.Read (fromUtf8Lossy : Bytes → String) : Request → Prop
  | .json _ => True
  | .audio modelName cachedParts => ∃ fields, readForm fromUtf8Lossy fields = .ok (modelName, cachedParts)

def Request.initialModel : Request → String
  | .json payload => payload.getModel
  | .audio modelName _ => modelName

section Send

variable (settings : ClientConfig → BodySettings) (isMime : String → Bool)

/-- What the callback of a request sends to a client for the model that is dispatched. -/
def Request.send (client : ClientConfig) (modelName : String) : Request → Sent
  | .json payload =>
    let currentPayload := payload.setModel modelName
    .body (buildRequestBodyGeneric currentPayload client (settings client)
      currentPayload.isStreaming)
  | .audio _ cachedParts => .form (rebuildForm isMime client modelName cachedParts)

end Send

/-- The field `model` of a body, or every part `model` of a form, is the name. -/
def Sent.Names (name : String) : Sent → Prop
  | .body fields => fields.get "model" = some (.str name)
  | .form parts => modelParts parts ≠ [] ∧ ∀ data ∈ modelParts parts, data = asBytes name

/-- The client has another name for the model, or the form already has the name of the model. -/
def Request.Carries (client : ClientConfig) (modelName : String) : Request → Prop
  | .json _ => True
  | .audio _ cachedParts =>
    client.resolveUpstreamModel modelName ≠ modelName ∨
      ∀ data ∈ modelParts cachedParts, data = asBytes modelName

theorem names_send_iff {fromUtf8Lossy : Bytes → String} {request : Request}
    (settings : ClientConfig → BodySettings) (isMime : String → Bool)
    (h : request.Read fromUtf8Lossy) (client : ClientConfig) (modelName : String) :
    (request.send settings isMime client modelName).Names (client.resolveUpstreamModel modelName) ↔
      request.Carries client modelName := by
  cases request with
  | json payload =>
    refine iff_of_true ?_ trivial
    rw [Request.send, Sent.Names, get_buildRequestBodyGeneric, Payload.getModel_setModel]
  | audio name cachedParts =>
    obtain ⟨fields, hfields⟩ := h
    have hparts : modelParts (rebuildForm isMime client modelName cachedParts) ≠ [] := by
      rw [modelParts_rebuildForm]
      split
      · exact mt List.map_eq_nil_iff.mp (modelParts_of_readForm fromUtf8Lossy hfields)
      · exact modelParts_of_readForm fromUtf8Lossy hfields
    rw [Request.send, Sent.Names, and_iff_right hparts]
    exact rebuildForm_carries_iff isMime client modelName cachedParts

/-- The rounds of a request: `upstream` answers what its callback sends. -/
def Request.visits (settings : ClientConfig → BodySettings) (isMime : String → Bool)
    (upstream : ℕ → ℕ → Sent → Except AppError Response) (visits : ℕ → Visit)
    (request : Request) : ℕ → Visit := fun k ↦
  { visits k with
    encounters := fun i ↦
      { (visits k).encounters i with
        answer := fun client modelName ↦
          upstream k i (request.send settings isMime client modelName) } }

/-- The attempts of a run answer what is sent for the model that is dispatched, and it names the
upstream model at every attempt exactly if the form carries it each time. -/
theorem upstream_model_iff (X : Externals) (config : Config)
    (routingKeys : Option (List (String × ℕ))) (endpoint : Option String)
    (settings : ClientConfig → BodySettings) (isMime : String → Bool)
    (fromUtf8Lossy : Bytes → String) (request : Request) (h : request.Read fromUtf8Lossy)
    (upstream : ℕ → ℕ → Sent → Except AppError Response) (visits : ℕ → Visit) (fuel : ℕ)
    (registry : CircuitBreaker.RegistryState) :
    let met := request.visits settings isMime upstream visits
    let run := dispatched X config routingKeys endpoint fuel met request.initialModel
      ⟨CircuitBreaker.configure config.healthCheck registry, [], []⟩
    (∀ resp s, execute X config routingKeys endpoint fuel met request.initialModel registry =
      some (resp, s) → s.attempts = run.map Prod.snd) ∧
    (∀ d ∈ run, ∃ k i, d.2.result =
      upstream k i (request.send settings isMime d.2.client d.1)) ∧
    ((∀ d ∈ run, (request.send settings isMime d.2.client d.1).Names
      (d.2.client.resolveUpstreamModel d.1)) ↔ ∀ d ∈ run, request.Carries d.2.client d.1) := by
  intro met run
  refine ⟨?_, ?_, ?_⟩
  · intro resp s hrun
    exact executeLoop_dispatched hrun
  · exact dispatched_results (P := fun model client result ↦ ∃ k i, result =
      upstream k i (request.send settings isMime client model)) fun k i client model ↦ ⟨k, i, rfl⟩
  · exact forall_congr' fun d ↦ imp_congr_right fun _ ↦
      names_send_iff settings isMime h d.2.client d.1

def speech : ClientConfig where
  name := "primary"
  modelMatch := { value := ["speech"] }
  fallback := some "backup"

def backup : ClientConfig where
  name := "backup"
  modelMatch := { value := ["backup"] }

def speechForm : List Field :=
  [{ name := some "model", bytes := .ok (asBytes "speech") },
    { name := some "file", fileName := some "a.wav", bytes := .ok [1, 2] }]

def ascii (bytes : Bytes) : String := String.ofList (bytes.map fun b ↦ Char.ofNat b.toNat)

def speechRequest : Request :=
  .audio "speech" [⟨"model", asBytes "speech", none, none⟩, ⟨"file", [1, 2], some "a.wav", none⟩]

def secondAnswers (k _i : ℕ) (_sent : Sent) : Except AppError Response :=
  if k = 0 then .error (.internalServerError "connection refused")
  else .ok { status := .ok, body := .bytes [] }

def twoClients (rewrite : Option (List (String × String))) : Config where
  openaiClients := [speech, { backup with modelRewrite := rewrite }]

def noSettings (_client : ClientConfig) : BodySettings := {}

def allMime (_contentType : String) : Bool := true

def twoRounds (rewrite : Option (List (String × String))) : List (String × Attempt) :=
  dispatched plainExternals (twoClients rewrite) none none 2
    (speechRequest.visits noSettings allMime secondAnswers fun _ ↦ someVisit) "speech"
    ⟨CircuitBreaker.configure {} (.new {}), [], []⟩

theorem speechRequest_read : speechRequest.Read ascii := by
  have hname : ascii (asBytes "speech") = "speech" := by decide +kernel
  refine ⟨speechForm, ?_⟩
  simp [readForm, cacheParts, speechForm, hname]

theorem upstream_model_iff_rewritten :
    (twoRounds (some [("backup", "backup-v2")])).length = 2 ∧
      ∀ d ∈ twoRounds (some [("backup", "backup-v2")]),
        (speechRequest.send noSettings allMime d.2.client d.1).Names
          (d.2.client.resolveUpstreamModel d.1) := by
  have hrun : (twoRounds (some [("backup", "backup-v2")])).map
      (fun d ↦ (d.1, d.2.client.resolveUpstreamModel d.1)) =
        [("speech", "speech"), ("backup", "backup-v2")] := by
    decide +kernel
  refine ⟨by simpa using congrArg List.length hrun, ?_⟩
  apply (upstream_model_iff plainExternals (twoClients (some [("backup", "backup-v2")])) none none
    noSettings allMime ascii speechRequest speechRequest_read secondAnswers (fun _ ↦ someVisit) 2
    (.new {})).2.2.mpr
  intro d hd
  have hpair : (d.1, d.2.client.resolveUpstreamModel d.1) ∈
      [("speech", "speech"), ("backup", "backup-v2")] := by
    rw [← hrun]
    exact List.mem_map_of_mem hd
  simp only [List.mem_cons, List.not_mem_nil, or_false, Prod.mk.injEq] at hpair
  rcases hpair with ⟨hmodel, -⟩ | ⟨hmodel, hresolved⟩
  · refine .inr ?_
    rw [hmodel]
    decide +kernel
  · refine .inl ?_
    rw [hresolved, hmodel]
    decide

theorem fallback_model_not_sent :
    ¬∀ d ∈ twoRounds none, (speechRequest.send noSettings allMime d.2.client d.1).Names
      (d.2.client.resolveUpstreamModel d.1) := by
  have hrun : (twoRounds none).map (fun d ↦ (d.1, d.2.client.resolveUpstreamModel d.1)) =
      [("speech", "speech"), ("backup", "backup")] := by
    decide +kernel
  have hlast : ("backup", "backup") ∈
      (twoRounds none).map fun d ↦ (d.1, d.2.client.resolveUpstreamModel d.1) := by
    rw [hrun]
    decide
  obtain ⟨d, hd, heq⟩ := List.mem_map.mp hlast
  obtain ⟨hmodel, hresolved⟩ := Prod.mk.inj heq
  intro hall
  rcases (names_send_iff noSettings allMime speechRequest_read d.2.client d.1).mp (hall d hd) with
    hne | hcarries
  · exact hne (hresolved.trans hmodel.symm)
  · rw [hmodel] at hcarries
    revert hcarries
    decide +kernel

end QueQiao.UpstreamModel
