import Mathlib.Data.Rat.Defs
import Mathlib.Data.List.Infix

namespace QueQiao

/-- An `f64` of the configuration: an exact number, or one of the NaN and infinite values. -/
inductive F64
  | finite (q : ℚ)
  | nonFinite
  deriving DecidableEq, Repr

inductive LoadBalancingStrategy
  | deterministic
  | random
  | leastConnections
  deriving DecidableEq, Repr

inductive ThinkingFormat
  | passthrough
  | thinkTag
  | reasoning
  | reasoningContent
  deriving DecidableEq, Repr

inductive ModelEcho
  | upstream
  | inbound
  deriving DecidableEq, Repr

structure ModelMatch where
  matchType : String := "exact"
  value : List String := []
  deriving DecidableEq, Repr

/-- A backend of the configuration. `modelRewrite` is the map from inbound to upstream
model names, as the list of its entries. -/
structure ClientConfig where
  name : String := ""
  baseUrl : String := ""
  modelMatch : ModelMatch := {}
  priority : Option ℕ := none
  fallback : Option String := none
  specialPrefix : Option String := none
  thinkingFormat : Option ThinkingFormat := none
  modelRewrite : Option (List (String × String)) := none
  modelEcho : ModelEcho := .upstream
  deriving DecidableEq, Repr

namespace ClientConfig

def matchesModel (client : ClientConfig) (inbound : String) : Bool :=
  let byMatch :=
    if client.modelMatch.matchType = "keyword" then
      client.modelMatch.value.any fun keyword ↦ decide (keyword.toList <:+: inbound.toList)
    else if client.modelMatch.matchType = "exact" then
      client.modelMatch.value.any fun value ↦ decide (value = inbound)
    else false
  byMatch || client.modelRewrite.any fun rewrite ↦ (rewrite.lookup inbound).isSome

def resolveUpstreamModel (client : ClientConfig) (inbound : String) : String :=
  (client.modelRewrite.bind fun rewrite ↦ rewrite.lookup inbound).getD inbound

end ClientConfig

structure HealthCheckConfig where
  enabled : Bool := true
  failureThreshold : ℕ := 3
  cooldownSeconds : ℕ := 30
  maxCooldownSeconds : ℕ := 300
  backoffMultiplier : F64 := .finite 2
  deriving DecidableEq, Repr

structure Config where
  openaiClients : List ClientConfig
  strategy : LoadBalancingStrategy := .deterministic
  thinkingFormat : Option ThinkingFormat := none
  healthCheck : HealthCheckConfig := {}
  deriving DecidableEq, Repr

def Config.resolveThinkingFormat (config : Config) (client : ClientConfig) : ThinkingFormat :=
  (client.thinkingFormat.or config.thinkingFormat).getD .passthrough

/-- The characters that `str::trim` removes: the Unicode property White_Space. -/
def isWhiteSpace (c : Char) : Bool :=
  let n := c.toNat
  (9 ≤ n && n ≤ 13) || n == 0x20 || n == 0x85 || n == 0xA0 || n == 0x1680 ||
    (0x2000 ≤ n && n ≤ 0x200A) || n == 0x2028 || n == 0x2029 || n == 0x202F ||
    n == 0x205F || n == 0x3000

def trimIsEmpty (s : String) : Bool := s.toList.all isWhiteSpace

def validateRewrite (client : ClientConfig) : List (String × String) → Except String Unit
  | [] => .ok ()
  | (source, target) :: rest =>
    if trimIsEmpty source then
      .error s!"client '{client.name}': model_rewrite contains an empty model name"
    else if trimIsEmpty target then
      .error s!"client '{client.name}': model_rewrite['{source}'] has an empty target"
    else validateRewrite client rest

def validateClients (seenNames : List String) : List ClientConfig → Except String Unit
  | [] => .ok ()
  | client :: rest =>
    if trimIsEmpty client.name then
      .error "openai_clients: client name must not be empty"
    else if client.name ∈ seenNames then
      .error s!"openai_clients: duplicate client name '{client.name}'"
    else if client.modelMatch.matchType ≠ "exact" ∧ client.modelMatch.matchType ≠ "keyword" then
      .error (s!"client '{client.name}': model_match.type must be 'exact' or 'keyword', got "
        ++ s!"'{client.modelMatch.matchType}'")
    else
      match client.modelRewrite with
      | none => validateClients (client.name :: seenNames) rest
      | some rewrite =>
        match validateRewrite client rewrite with
        | .error message => .error message
        | .ok () => validateClients (client.name :: seenNames) rest

def validateConfig (config : Config) : Except String Unit :=
  validateClients [] config.openaiClients

theorem validateClients_nodup {clients : List ClientConfig} {seen : List String}
    (h : validateClients seen clients = .ok ()) :
    (clients.map (·.name)).Nodup ∧ ∀ c ∈ clients, c.name ∉ seen := by
  induction clients generalizing seen with
  | nil => simp
  | cons client rest ih =>
    unfold validateClients at h
    split at h
    · cases h
    split at h
    · cases h
    rename_i hnew
    split at h
    · cases h
    have hrest : validateClients (client.name :: seen) rest = .ok () := by
      cases hr : client.modelRewrite with
      | none => simpa only [hr] using h
      | some rewrite =>
        simp only [hr] at h
        cases hv : validateRewrite client rewrite with
        | error message => simp [hv] at h
        | ok u => simpa only [hv] using h
    obtain ⟨hnd, hfresh⟩ := ih hrest
    refine ⟨List.nodup_cons.mpr ⟨?_, hnd⟩, ?_⟩
    · intro hmem
      obtain ⟨c, hc, hname⟩ := List.mem_map.mp hmem
      exact hfresh c hc (hname ▸ List.mem_cons_self)
    · intro c hc
      rcases List.mem_cons.mp hc with rfl | hc
      · exact hnew
      · exact fun hs ↦ hfresh c hc (List.mem_cons_of_mem _ hs)

theorem validateConfig_nodup {config : Config} (h : validateConfig config = .ok ()) :
    (config.openaiClients.map (·.name)).Nodup :=
  (validateClients_nodup h).1

end QueQiao
