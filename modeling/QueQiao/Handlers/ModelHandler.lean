import QueQiao.Client.Routing
import QueQiao.Lib.Transition
import QueQiao.Models.Http

namespace QueQiao.ModelHandler

open Lib.Transition Routing

/-- How the task of one client ends: `fetch_models_from_client` returns a value or an error, or the
task panics. -/
inductive FetchResult
  | models (value : Json)
  | failed (err : String)
  | panicked

def FetchResult.isModels : FetchResult → Bool
  | .models _ => true
  | .failed _ | .panicked => false

def modelMatchesFilter (modelId : String) (client : ClientConfig) : Bool :=
  client.matchesModel modelId

def stringId (model : Json) : Option String := (model.get "id").bind Json.asStr

def passesFilter (client : ClientConfig) (model : Json) : Bool :=
  (stringId model).any fun id ↦ modelMatchesFilter id client

def modelsFrom (client : ClientConfig) : FetchResult → List Json
  | .models models =>
    match models.get "data" with
    | some (.arr data) => data.filter (passesFilter client)
    | _ => if passesFilter client models then [models] else []
  | .failed _ | .panicked => []

/-- `unique_models`, and the ids seen, the last in front. -/
structure Collected where
  uniqueModels : List Json := []
  seenIds : List String := []

def Collected.add (s : Collected) (model : Json) : Collected :=
  match stringId model with
  | some id =>
    if id ∈ s.seenIds then s else ⟨s.uniqueModels ++ [model], id :: s.seenIds⟩
  | none => { s with uniqueModels := s.uniqueModels ++ [model] }

def aliasModel (client : ClientConfig) (aliasName : String) : Json :=
  .obj [("id", .str aliasName), ("object", .str "model"), ("owned_by", .str client.name)]

def aliases (client : ClientConfig) : List String :=
  (client.modelRewrite.getD []).map Prod.fst

def Collected.addAlias (client : ClientConfig) (s : Collected) (aliasName : String) : Collected :=
  if aliasName ∈ s.seenIds then s
  else ⟨s.uniqueModels ++ [aliasModel client aliasName], aliasName :: s.seenIds⟩

def Collected.addAliases (s : Collected) (client : ClientConfig) : Collected :=
  (aliases client).foldl (Collected.addAlias client) s

/-- The results with their clients; `fetch` says how the task at each place ends. -/
def results (clients : List ClientConfig) (fetch : ℕ → FetchResult) :
    List (FetchResult × ClientConfig) :=
  clients.zipIdx.map fun task ↦ (fetch task.2, task.1)

def collected (clients : List ClientConfig) (fetch : ℕ → FetchResult) : Collected :=
  let allModels := (results clients fetch).flatMap fun result ↦ modelsFrom result.2 result.1
  clients.foldl Collected.addAliases (allModels.foldl Collected.add {})

def anySuccess (clients : List ClientConfig) (fetch : ℕ → FetchResult) : Bool :=
  (results clients fetch).any fun result ↦ result.1.isModels

def aggregateModels (clients : List ClientConfig) (fetch : ℕ → FetchResult) : Json × Bool :=
  (.obj [("data", .arr (collected clients fetch).uniqueModels), ("object", .str "list")],
    anySuccess clients fetch)

def returnedIds : FetchResult → List String
  | .models models =>
    match models.get "data" with
    | some (.arr data) => data.filterMap stringId
    | _ => (stringId models).toList
  | .failed _ | .panicked => []

def listedModels (list : Json) : List Json :=
  match list.get "data" with
  | some (.arr data) => data
  | _ => []

def listedIds (list : Json) : List String := (listedModels list).filterMap stringId

structure Lawful (config : Config) (fetch : ℕ → FetchResult) (list : Json) : Prop where
  identified : ∀ model ∈ listedModels list, (stringId model).isSome
  unique : (listedIds list).Nodup
  routable : ∀ id ∈ listedIds list, findMatchingClients config id ≠ []
  listed : ∀ result ∈ results config.openaiClients fetch, ∀ id ∈ returnedIds result.1,
    result.2.matchesModel id = true → id ∈ listedIds list
  aliases : ∀ client ∈ config.openaiClients, ∀ aliasName ∈ aliases client, aliasName ∈ listedIds list

section Collecting

variable {client : ClientConfig} {clients : List ClientConfig} {fetch : ℕ → FetchResult}
  {s : Collected} {id : String}

theorem passesFilter_of_stringId {model : Json} (h : stringId model = some id) :
    passesFilter client model = client.matchesModel id := by
  rw [passesFilter, h, Option.any_some, modelMatchesFilter]

theorem mem_modelsFrom {result : FetchResult} :
    (∃ model ∈ modelsFrom client result, stringId model = some id) ↔
      id ∈ returnedIds result ∧ client.matchesModel id = true := by
  cases result with
  | failed err | panicked => simp [modelsFrom, returnedIds]
  | models value =>
    rw [modelsFrom, returnedIds]
    split
    · rename_i data hdata
      simp only [List.mem_filter, List.mem_filterMap]
      constructor
      · rintro ⟨model, ⟨hmem, hpasses⟩, hid⟩
        rw [passesFilter_of_stringId hid] at hpasses
        exact ⟨⟨model, hmem, hid⟩, hpasses⟩
      · rintro ⟨⟨model, hmem, hid⟩, hmatches⟩
        exact ⟨model, ⟨hmem, (passesFilter_of_stringId hid).trans hmatches⟩, hid⟩
    · rw [Option.mem_toList]
      constructor
      · rintro ⟨model, hmem, hid⟩
        split at hmem
        · rename_i hpasses
          obtain rfl := List.mem_singleton.mp hmem
          exact ⟨hid, (passesFilter_of_stringId hid).symm.trans hpasses⟩
        · cases hmem
      · rintro ⟨hid, hmatches⟩
        have hpasses := (passesFilter_of_stringId hid).trans hmatches
        refine ⟨value, ?_, hid⟩
        rw [if_pos hpasses]
        exact List.mem_singleton_self value

structure Collected.Ok (s : Collected) : Prop where
  ids : s.uniqueModels.map stringId = s.seenIds.reverse.map some
  nodup : s.seenIds.Nodup

theorem Collected.Ok.snoc (hs : s.Ok) {model : Json} (hid : stringId model = some id)
    (hnew : id ∉ s.seenIds) : Collected.Ok ⟨s.uniqueModels ++ [model], id :: s.seenIds⟩ := by
  refine ⟨?_, List.nodup_cons.mpr ⟨hnew, hs.nodup⟩⟩
  rw [List.map_append, hs.ids, List.reverse_cons, List.map_append, List.map_singleton, hid,
    List.map_singleton]

theorem Collected.Ok.add (hs : s.Ok) {model : Json} (hid : stringId model = some id) :
    (s.add model).Ok ∧ ∀ other, other ∈ (s.add model).seenIds ↔ other ∈ s.seenIds ∨ other = id := by
  rw [Collected.add, hid]
  dsimp only
  split
  · rename_i hseen
    refine ⟨hs, ?_⟩
    intro other
    constructor
    · exact .inl
    · rintro (hother | rfl)
      · exact hother
      · exact hseen
  · rename_i hnew
    refine ⟨hs.snoc hid hnew, ?_⟩
    intro other
    rw [List.mem_cons, or_comm]

theorem stringId_aliasModel (client : ClientConfig) (aliasName : String) :
    stringId (aliasModel client aliasName) = some aliasName := rfl

theorem Collected.Ok.addAll {models : List Json} (hs : s.Ok)
    (hids : ∀ model ∈ models, ∃ id, stringId model = some id) :
    (models.foldl Collected.add s).Ok ∧ ∀ other, other ∈ (models.foldl Collected.add s).seenIds ↔
      other ∈ s.seenIds ∨ ∃ model ∈ models, stringId model = some other := by
  induction models generalizing s with
  | nil => exact ⟨hs, fun other ↦ by simp⟩
  | cons model models ih =>
    obtain ⟨id, hid⟩ := hids model List.mem_cons_self
    obtain ⟨hadd, hmem⟩ := hs.add hid
    obtain ⟨hall, hseen⟩ := ih hadd fun other hother ↦ hids other (List.mem_cons_of_mem _ hother)
    refine ⟨hall, ?_⟩
    intro other
    rw [List.foldl_cons, hseen, hmem, List.exists_mem_cons_iff, hid, Option.some.injEq, or_assoc,
      eq_comm (a := id)]

theorem foldl_addAliases (clients : List ClientConfig) (s : Collected) :
    clients.foldl Collected.addAliases s =
      (clients.flatMap fun client ↦ (aliases client).map (aliasModel client)).foldl
        Collected.add s := by
  rw [List.foldl_flatMap]
  congr 1
  funext s client
  rw [Collected.addAliases, List.foldl_map]
  rfl

theorem identified_of_mem_modelsFrom {result : FetchResult} {model : Json}
    (h : model ∈ modelsFrom client result) : ∃ id, stringId model = some id := by
  have hpasses : passesFilter client model = true := by
    cases result with
    | failed err | panicked => cases h
    | models value =>
      rw [modelsFrom] at h
      split at h
      · exact (List.mem_filter.mp h).2
      · split at h
        · rename_i hpasses
          rwa [List.mem_singleton.mp h]
        · cases h
  rw [passesFilter, Option.any_eq_true] at hpasses
  obtain ⟨id, hid, -⟩ := hpasses
  exact ⟨id, hid⟩

theorem collected_ok (clients : List ClientConfig) (fetch : ℕ → FetchResult) :
    (collected clients fetch).Ok ∧ ∀ id, id ∈ (collected clients fetch).seenIds ↔
      (∃ result ∈ results clients fetch, id ∈ returnedIds result.1 ∧
        result.2.matchesModel id = true) ∨
      ∃ client ∈ clients, id ∈ aliases client := by
  have hstart : Collected.Ok {} := ⟨rfl, List.nodup_nil⟩
  have hfetched : ∀ model ∈ (results clients fetch).flatMap fun result ↦
      modelsFrom result.2 result.1, ∃ id, stringId model = some id := by
    intro model hmem
    obtain ⟨result, -, hmem⟩ := List.mem_flatMap.mp hmem
    exact identified_of_mem_modelsFrom hmem
  have haliases : ∀ model ∈ clients.flatMap fun client ↦ (aliases client).map (aliasModel client),
      ∃ id, stringId model = some id := by
    intro model hmem
    obtain ⟨client, -, hmem⟩ := List.mem_flatMap.mp hmem
    obtain ⟨aliasName, -, rfl⟩ := List.mem_map.mp hmem
    exact ⟨aliasName, stringId_aliasModel client aliasName⟩
  obtain ⟨hfetchedOk, hfetchedSeen⟩ := hstart.addAll hfetched
  obtain ⟨hok, hseen⟩ := hfetchedOk.addAll haliases
  rw [collected, foldl_addAliases]
  refine ⟨hok, ?_⟩
  intro id
  rw [hseen, hfetchedSeen]
  apply or_congr
  · rw [or_iff_right List.not_mem_nil]
    constructor
    · rintro ⟨model, hmem, hid⟩
      obtain ⟨result, hresult, hmem⟩ := List.mem_flatMap.mp hmem
      exact ⟨result, hresult, mem_modelsFrom.mp ⟨model, hmem, hid⟩⟩
    · rintro ⟨result, hresult, hreturned⟩
      obtain ⟨model, hmem, hid⟩ := mem_modelsFrom.mpr hreturned
      exact ⟨model, List.mem_flatMap.mpr ⟨result, hresult, hmem⟩, hid⟩
  · constructor
    · rintro ⟨model, hmem, hid⟩
      obtain ⟨client, hclient, hmem⟩ := List.mem_flatMap.mp hmem
      obtain ⟨aliasName, halias, rfl⟩ := List.mem_map.mp hmem
      obtain rfl := Option.some.inj hid
      exact ⟨client, hclient, halias⟩
    · rintro ⟨client, hclient, halias⟩
      exact ⟨aliasModel client id,
        List.mem_flatMap.mpr ⟨client, hclient, List.mem_map_of_mem halias⟩,
        stringId_aliasModel client id⟩

theorem listedIds_aggregateModels (clients : List ClientConfig) (fetch : ℕ → FetchResult) :
    listedIds (aggregateModels clients fetch).1 = (collected clients fetch).seenIds.reverse := by
  have hids := (collected_ok clients fetch).1.ids
  have hlisted : listedModels (aggregateModels clients fetch).1 =
      (collected clients fetch).uniqueModels := rfl
  have hfilterMap : listedIds (aggregateModels clients fetch).1 =
      ((collected clients fetch).uniqueModels.map stringId).filterMap id := by
    rw [listedIds, hlisted, List.filterMap_map]
    rfl
  rw [hfilterMap, hids, List.filterMap_map]
  exact List.filterMap_some

theorem matchesModel_of_alias {aliasName : String} (h : aliasName ∈ aliases client) :
    client.matchesModel aliasName = true := by
  rw [aliases] at h
  cases hrewrite : client.modelRewrite with
  | none =>
    rw [hrewrite] at h
    cases h
  | some rewrite =>
    rw [hrewrite, Option.getD_some] at h
    obtain ⟨entry, hentry, rfl⟩ := List.mem_map.mp h
    have hlookup : (rewrite.lookup entry.1).isSome = true := by
      rw [Option.isSome_iff_ne_none]
      intro hnone
      have hne := List.lookup_eq_none_iff.mp hnone entry hentry
      simp at hne
    simp only [ClientConfig.matchesModel, hrewrite, Option.any_some, hlookup, Bool.or_true]

end Collecting

theorem aggregateModels_lawful (config : Config) (fetch : ℕ → FetchResult) :
    Lawful config fetch (aggregateModels config.openaiClients fetch).1 := by
  obtain ⟨hok, hseen⟩ := collected_ok config.openaiClients fetch
  have hlisted : ∀ id, id ∈ listedIds (aggregateModels config.openaiClients fetch).1 ↔
      (∃ result ∈ results config.openaiClients fetch, id ∈ returnedIds result.1 ∧
        result.2.matchesModel id = true) ∨
      ∃ client ∈ config.openaiClients, id ∈ aliases client := by
    intro id
    rw [listedIds_aggregateModels, List.mem_reverse, hseen]
  refine ⟨?_, ?_, ?_, ?_, ?_⟩
  · intro model hmem
    have hmem : stringId model ∈ (collected config.openaiClients fetch).uniqueModels.map stringId :=
      List.mem_map_of_mem hmem
    rw [hok.ids] at hmem
    obtain ⟨id, -, hid⟩ := List.mem_map.mp hmem
    rw [← hid]
    rfl
  · rw [listedIds_aggregateModels]
    exact List.nodup_reverse.mpr hok.nodup
  · intro id hid
    have hmatch : ∃ client ∈ config.openaiClients, client.matchesModel id = true := by
      rcases (hlisted id).mp hid with ⟨result, hresult, -, hmatches⟩ | ⟨client, hclient, halias⟩
      · obtain ⟨⟨client, i⟩, htask, rfl⟩ := List.mem_map.mp hresult
        exact ⟨client, (List.mem_zipIdx' htask).2 ▸ List.getElem_mem _, hmatches⟩
      · exact ⟨client, hclient, matchesModel_of_alias halias⟩
    obtain ⟨client, hclient, hmatches⟩ := hmatch
    exact List.ne_nil_of_mem (List.mem_filter.mpr ⟨hclient, hmatches⟩)
  · intro result hresult id hreturned hmatches
    exact (hlisted id).mpr (.inl ⟨result, hresult, hreturned, hmatches⟩)
  · intro client hclient aliasName halias
    exact (hlisted aliasName).mpr (.inr ⟨client, hclient, halias⟩)

/-- The generation of the configuration, and the fingerprint of the keys for the upstreams. -/
structure Key (κ : Type) where
  generation : ℕ
  credential : κ
  deriving DecidableEq

abbrev Cache (κ : Type) := Key κ → Option Json

inductive Event (κ : Type)
  | direct (generation : ℕ) (fetch : ℕ → FetchResult)
  | lookup (key : Key κ)
  | refresh (key : Key κ) (fetch : ℕ → FetchResult)
  | panic (key : Key κ)
  | evict (key : Key κ)

def upstreamError : StatusCode × Json :=
  (.badGateway,
    buildErrorBody "failed to fetch model list from all upstreams" "upstream_error")

section Answers

variable {κ : Type} (configs : ℕ → Config)

def Event.generation : Event κ → ℕ
  | .direct generation _ => generation
  | .lookup key | .refresh key _ | .panic key | .evict key => key.generation

def Event.ownFetch : Event κ → Option (ℕ → FetchResult)
  | .direct _ fetch | .refresh _ fetch => some fetch
  | .lookup _ | .panic _ | .evict _ => none

def aggregateFor (generation : ℕ) (fetch : ℕ → FetchResult) : Json × Bool :=
  aggregateModels (configs generation).openaiClients fetch

def previousOrError (cache : Cache κ) (key : Key κ) : StatusCode × Json :=
  match cache key with
  | some previous => (.ok, previous)
  | none => upstreamError

def listModels (cache : Cache κ) : Event κ → Option (StatusCode × Json)
  | .direct generation fetch =>
    let aggregated := aggregateFor configs generation fetch
    some (if aggregated.2 then (.ok, aggregated.1) else upstreamError)
  | .lookup key => some (previousOrError cache key)
  | .refresh key fetch =>
    let aggregated := aggregateFor configs key.generation fetch
    some (if aggregated.2 then (.ok, aggregated.1) else previousOrError cache key)
  | .panic _ => some upstreamError
  | .evict _ => none

/-- What is cached is a list of the models of its generation. -/
def Sound (cache : Cache κ) : Prop :=
  ∀ key value, cache key = some value →
    ∃ fetch, aggregateFor configs key.generation fetch = (value, true)

/-- When there is no list to answer with: the task of the refresh has panicked, or no upstream was
reached and nothing is cached for the request. -/
def Unlisted (cache : Cache κ) : Event κ → Prop
  | .direct generation fetch => anySuccess (configs generation).openaiClients fetch = false
  | .lookup key => cache key = none
  | .refresh key fetch =>
    anySuccess (configs key.generation).openaiClients fetch = false ∧ cache key = none
  | .panic _ => True
  | .evict _ => False

/-- What holds of an answer: a list is lawful, and it is the one of the own fetch where that reaches
an upstream; there is no list only where there is none to answer with. -/
structure Answered (cache : Cache κ) (e : Event κ) (answer : StatusCode × Json) : Prop where
  status : answer.1 = .ok ∨ answer = upstreamError
  lawful : answer.1 = .ok → ∃ fetch, anySuccess (configs e.generation).openaiClients fetch = true ∧
    Lawful (configs e.generation) fetch answer.2
  own : ∀ fetch, e.ownFetch = some fetch →
    anySuccess (configs e.generation).openaiClients fetch = true →
      answer.1 = .ok ∧ Lawful (configs e.generation) fetch answer.2
  unlisted : answer.1 ≠ .ok → Unlisted configs cache e

variable {configs} {cache t : Cache κ} {e : Event κ} {answer : StatusCode × Json}

theorem lawful_aggregateFor (generation : ℕ) (fetch : ℕ → FetchResult) :
    Lawful (configs generation) fetch (aggregateFor configs generation fetch).1 :=
  aggregateModels_lawful (configs generation) fetch

theorem Sound.previousOrError (hs : Sound configs cache) (key : Key κ) :
    (previousOrError cache key).1 = .ok ∧ (∃ fetch,
        anySuccess (configs key.generation).openaiClients fetch = true ∧
          Lawful (configs key.generation) fetch (previousOrError cache key).2) ∨
      previousOrError cache key = upstreamError ∧ cache key = none := by
  rw [ModelHandler.previousOrError]
  cases hprevious : cache key with
  | none => exact .inr ⟨rfl, rfl⟩
  | some previous =>
    obtain ⟨fetch, hfetch⟩ := hs key previous hprevious
    refine .inl ⟨rfl, fetch, congrArg Prod.snd hfetch, ?_⟩
    have hlawful := @lawful_aggregateFor configs key.generation fetch
    rwa [hfetch] at hlawful

theorem upstreamError_ne_ok : upstreamError.1 ≠ .ok := by decide

theorem answered_of_previous {answer : StatusCode × Json}
    (h : answer.1 = .ok ∧ (∃ fetch, anySuccess (configs e.generation).openaiClients fetch = true ∧
      Lawful (configs e.generation) fetch answer.2) ∨
      answer = upstreamError ∧ Unlisted configs cache e)
    (hown : ∀ fetch, e.ownFetch = some fetch →
      anySuccess (configs e.generation).openaiClients fetch = false) :
    Answered configs cache e answer := by
  refine ⟨h.imp And.left And.left, ?_, ?_, ?_⟩
  · intro hok
    rcases h with ⟨-, hlawful⟩ | ⟨rfl, -⟩
    · exact hlawful
    · exact absurd hok upstreamError_ne_ok
  · intro fetch hfetch hany
    rw [hown fetch hfetch] at hany
    cases hany
  · intro hne
    exact (h.resolve_left fun hok ↦ hne hok.1).2

theorem answered_of_own {fetch : ℕ → FetchResult} (hfetch : e.ownFetch = some fetch)
    (hany : anySuccess (configs e.generation).openaiClients fetch = true) :
    Answered configs cache e (.ok, (aggregateFor configs e.generation fetch).1) := by
  have hlawful := @lawful_aggregateFor configs e.generation fetch
  refine ⟨.inl rfl, fun _ ↦ ⟨fetch, hany, hlawful⟩, ?_, fun hne ↦ absurd rfl hne⟩
  intro other hother _
  obtain rfl := Option.some.inj (hfetch.symm.trans hother)
  exact ⟨rfl, hlawful⟩

theorem Sound.answered (hs : Sound configs cache) (h : listModels configs cache e = some answer) :
    Answered configs cache e answer := by
  cases e with
  | direct generation fetch =>
    cases hany : (aggregateFor configs generation fetch).2 with
    | true =>
      simp only [listModels, hany, if_true] at h
      obtain rfl := Option.some.inj h
      exact answered_of_own (e := .direct generation fetch) rfl hany
    | false =>
      simp only [listModels, hany, Bool.false_eq_true, if_false] at h
      obtain rfl := Option.some.inj h
      have hunlisted : Unlisted configs cache (.direct generation fetch) := hany
      apply answered_of_previous (.inr ⟨rfl, hunlisted⟩)
      intro other hother
      obtain rfl := Option.some.inj hother
      exact hany
  | lookup key =>
    obtain rfl := Option.some.inj h
    apply answered_of_previous (hs.previousOrError key)
    intro fetch hfetch
    cases hfetch
  | refresh key fetch =>
    cases hany : (aggregateFor configs key.generation fetch).2 with
    | true =>
      simp only [listModels, hany, if_true] at h
      obtain rfl := Option.some.inj h
      exact answered_of_own (e := .refresh key fetch) rfl hany
    | false =>
      simp only [listModels, hany, Bool.false_eq_true, if_false] at h
      obtain rfl := Option.some.inj h
      refine answered_of_previous ((hs.previousOrError key).imp_right fun hnone ↦
        ⟨hnone.1, hany, hnone.2⟩) ?_
      intro other hother
      obtain rfl := Option.some.inj hother
      exact hany
  | panic key =>
    obtain rfl := Option.some.inj h
    have hunlisted : Unlisted configs cache (.panic key) := trivial
    apply answered_of_previous (.inr ⟨rfl, hunlisted⟩)
    intro fetch hfetch
    cases hfetch
  | evict key => cases h

variable [DecidableEq κ]

variable (configs) in
def step (cache : Cache κ) : Event κ → Option (Cache κ)
  | .refresh key fetch =>
    let aggregated := aggregateFor configs key.generation fetch
    some (if aggregated.2 then fun k ↦ if k = key then some aggregated.1 else cache k else cache)
  | .evict key => some fun k ↦ if k = key then none else cache k
  | .direct _ _ | .lookup _ | .panic _ => some cache

theorem Sound.step (hs : Sound configs cache) (h : step configs cache e = some t) :
    Sound configs t := by
  cases e with
  | direct | lookup | panic =>
    obtain rfl := Option.some.inj h
    exact hs
  | refresh key fetch =>
    obtain rfl := Option.some.inj h
    cases hany : (aggregateFor configs key.generation fetch).2 with
    | false => exact hs
    | true =>
      intro k value hvalue
      rw [if_pos rfl] at hvalue
      split at hvalue
      · rename_i hk
        obtain rfl := Option.some.inj hvalue
        refine ⟨fetch, ?_⟩
        rw [hk, ← hany]
      · exact hs k value hvalue
  | evict key =>
    obtain rfl := Option.some.inj h
    intro k value hvalue
    dsimp only at hvalue
    split at hvalue
    · cases hvalue
    · exact hs k value hvalue

end Answers

def aliasConfig : Config :=
  { openaiClients := [{ name := "primary", modelRewrite := some [("fast", "model-large")] }] }

def oneModel : FetchResult :=
  .models (.obj [("data", .arr [.obj [("id", .str "model-large")]])])

end QueQiao.ModelHandler
