import QueQiao.Models.Http
import QueQiao.Config.Types

namespace QueQiao.AudioHandler

abbrev Bytes := List UInt8

def asBytes (s : String) : Bytes := s.toUTF8.data.toList

/-- A field of the multipart form; `bytes` is the text of the error where its data cannot be
read. -/
structure Field where
  name : Option String
  fileName : Option String := none
  contentType : Option String := none
  bytes : Except String Bytes

structure CachedPart where
  name : String
  data : Bytes
  fileName : Option String := none
  contentType : Option String := none
  deriving DecidableEq

def unreadable (e : String) : AppError :=
  .apiError .badRequest ("Failed to read field data: " ++ e) "multipart_error"

def missingModel : AppError :=
  .apiError .badRequest "Missing 'model' field in multipart form data" "validation_error"

section Form

-- `String::from_utf8_lossy`
variable (fromUtf8Lossy : Bytes → String)

def cacheParts : List Field → String → List CachedPart → Except AppError (String × List CachedPart)
  | [], modelName, cachedParts => .ok (modelName, cachedParts)
  | field :: fields, modelName, cachedParts =>
    match field.bytes with
    | .error e => .error (unreadable e)
    | .ok data =>
      let name := field.name.getD ""
      cacheParts fields (if name = "model" then fromUtf8Lossy data else modelName)
        (cachedParts ++ [⟨name, data, field.fileName, field.contentType⟩])

/-- The name of the model and the parts, up to the call of the dispatcher. -/
def readForm (fields : List Field) : Except AppError (String × List CachedPart) :=
  match cacheParts fromUtf8Lossy fields "" [] with
  | .error e => .error e
  | .ok (modelName, cachedParts) =>
    if modelName = "" then .error missingModel else .ok (modelName, cachedParts)

/-- The form for one client; `isMime` says which content types parse. -/
def rebuildForm (isMime : String → Bool) (client : ClientConfig) (currentModel : String)
    (cachedParts : List CachedPart) : List CachedPart :=
  let upstreamModel := client.resolveUpstreamModel currentModel
  let rewriteModelPart := upstreamModel ≠ currentModel
  cachedParts.map fun part ↦
    { part with
      data := if part.name = "model" ∧ rewriteModelPart then asBytes upstreamModel else part.data
      contentType := part.contentType.filter isMime }

def isModelPart (part : CachedPart) : Bool := part.name = "model"

def modelParts (parts : List CachedPart) : List Bytes :=
  (parts.filter isModelPart).map CachedPart.data

theorem cacheParts_model {fields : List Field} {modelName model : String}
    {cachedParts parts : List CachedPart}
    (h : cacheParts fromUtf8Lossy fields modelName cachedParts = .ok (model, parts))
    (hmodel : modelName ≠ "" → modelParts cachedParts ≠ []) :
    model ≠ "" → modelParts parts ≠ [] := by
  induction fields generalizing modelName cachedParts with
  | nil =>
    cases h
    exact hmodel
  | cons field fields ih =>
    rw [cacheParts] at h
    cases hbytes : field.bytes with
    | error e =>
      rw [hbytes] at h
      cases h
    | ok data =>
      rw [hbytes] at h
      refine ih h ?_
      intro hne
      rw [modelParts, List.filter_append, List.map_append]
      by_cases hname : field.name.getD "" = "model"
      · apply List.append_ne_nil_of_right_ne_nil
        simp [isModelPart, hname]
      · rw [if_neg hname] at hne
        exact List.append_ne_nil_of_left_ne_nil (hmodel hne) _

theorem modelParts_of_readForm {fields : List Field} {model : String} {parts : List CachedPart}
    (h : readForm fromUtf8Lossy fields = .ok (model, parts)) : modelParts parts ≠ [] := by
  rw [readForm] at h
  split at h
  · cases h
  · rename_i name cached hcached
    split at h
    · cases h
    · rename_i hne
      cases h
      exact cacheParts_model fromUtf8Lossy hcached (fun h ↦ absurd rfl h) hne

end Form

theorem modelParts_rebuildForm (isMime : String → Bool) (client : ClientConfig)
    (currentModel : String) (parts : List CachedPart) :
    modelParts (rebuildForm isMime client currentModel parts) =
      if client.resolveUpstreamModel currentModel ≠ currentModel then
        (modelParts parts).map fun _ ↦ asBytes (client.resolveUpstreamModel currentModel)
      else modelParts parts := by
  rw [modelParts, rebuildForm, List.filter_map, List.map_map]
  split
  · rename_i hne
    rw [modelParts, List.map_map]
    apply List.map_congr_left
    intro part hpart
    have hname : part.name = "model" := of_decide_eq_true (List.mem_filter.mp hpart).2
    exact if_pos ⟨hname, hne⟩
  · rename_i heq
    apply List.map_congr_left
    intro part _
    exact if_neg fun h ↦ heq h.2

theorem rebuildForm_carries_iff (isMime : String → Bool) (client : ClientConfig)
    (currentModel : String) (parts : List CachedPart) :
    (∀ data ∈ modelParts (rebuildForm isMime client currentModel parts),
      data = asBytes (client.resolveUpstreamModel currentModel)) ↔
    client.resolveUpstreamModel currentModel ≠ currentModel ∨
      ∀ data ∈ modelParts parts, data = asBytes currentModel := by
  rw [modelParts_rebuildForm]
  by_cases h : client.resolveUpstreamModel currentModel = currentModel
  · rw [if_neg (not_not.mpr h), h]
    constructor
    · exact .inr
    · intro hcarries
      exact hcarries.resolve_left fun hne ↦ hne rfl
  · rw [if_pos h]
    refine iff_of_true ?_ (.inl h)
    intro data hdata
    obtain ⟨-, -, rfl⟩ := List.mem_map.mp hdata
    rfl

end QueQiao.AudioHandler
