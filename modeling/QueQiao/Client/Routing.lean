import QueQiao.Metrics.ActiveRequests
import Mathlib.Data.List.Sort
import Mathlib.Data.String.Basic
import Mathlib.Algebra.Order.Field.Rat

namespace QueQiao.Routing

def findMatchingClients (config : Config) (model : String) : List ClientConfig :=
  config.openaiClients.filter (·.matchesModel model)

/-- A drawn sort key `random_value.powf(1.0 / weight)`. -/
abbrev SortKey := {q : ℚ // 0 ≤ q ∧ q ≤ 1}

/-- `sort_by` with a comparison that puts `a` before `b` or leaves them as they are exactly
when `le a b`. -/
def sortBy {α : Type} (le : α → α → Bool) (l : List α) : List α :=
  l.insertionSort fun a b ↦ le a b = true

def selectClientsByRandomWeight (keys : ℕ → SortKey) (clients : List ClientConfig) :
    List ClientConfig :=
  let weightedClients : List (ℚ × ClientConfig) := clients.zipIdx.map fun (client, i) ↦
    if client.priority.getD 0 = 0 then (0, client) else ((keys i).1, client)
  (sortBy (fun a b ↦ b.1 ≤ a.1) weightedClients).map (·.2)

/-- `hashScore key name priority` is the score `normalized_hash.powf(1.0 / priority)` of a
client for a routing key. -/
def bestClientName (hashScore : String → String → ℕ → ℚ) (clients : List ClientConfig)
    (keyContent : String) : String :=
  (clients.foldl
    (fun (best : String × ℚ) client ↦
      let priority := client.priority.getD 0
      let score := if priority = 0 then 0 else hashScore keyContent client.name priority
      if score > best.2 then (client.name, score) else best)
    ("", -1)).1

def clientScores (hashScore : String → String → ℕ → ℚ) (clients : List ClientConfig)
    (keys : List (String × ℕ)) : String → ℕ :=
  keys.foldl
    (fun scores (keyContent, lengthWeight) ↦
      let best := bestClientName hashScore clients keyContent
      if best = "" then scores
      else fun name ↦ if name = best then scores name + lengthWeight else scores name)
    fun _ ↦ 0

def selectClientsByVoting (hashScore : String → String → ℕ → ℚ) (clients : List ClientConfig)
    (keys : List (String × ℕ)) : List ClientConfig :=
  let scores := clientScores hashScore clients keys
  let rankedClients := clients.map fun client ↦ (scores client.name, client)
  let before (a b : ℕ × ClientConfig) : Bool :=
    b.1 < a.1 || (a.1 == b.1 && decide (a.2.name ≤ b.2.name))
  (sortBy before rankedClients).map (·.2)

def connectionScore (activeCounts : List (String × ℤ)) (client : ClientConfig) : ℚ :=
  let active := (activeCounts.lookup client.name).getD 0
  let priority := max (client.priority.getD 1) 1
  if active ≤ 0 then 0 else active / priority

def fewerConnections (a b : ℚ × ClientConfig) : Bool :=
  a.1 < b.1 || (a.1 == b.1 && decide (b.2.name ≤ a.2.name))

def selectClientsByLeastConnections (clients : List ClientConfig)
    (activeCounts : Option (List (String × ℤ))) : List ClientConfig :=
  let counts := activeCounts.getD []
  let scoredClients := clients.map fun client ↦ (connectionScore counts client, client)
  (sortBy fewerConnections scoredClients).map (·.2)

def selectClients (hashScore : String → String → ℕ → ℚ) (keys : ℕ → SortKey)
    (clients : List ClientConfig) (routingKeys : Option (List (String × ℕ)))
    (strategy : LoadBalancingStrategy) (activeCounts : Option (List (String × ℤ))) :
    List ClientConfig :=
  if clients = [] then clients
  else
    match strategy with
    | .random => selectClientsByRandomWeight keys clients
    | .deterministic =>
      match routingKeys with
      | some (key :: rest) => selectClientsByVoting hashScore clients (key :: rest)
      | _ => selectClientsByRandomWeight keys clients
    | .leastConnections => selectClientsByLeastConnections clients activeCounts

theorem sortBy_map_perm {α : Type} (le : α → α → Bool) (l : List α) {β : Type} (f : α → β) :
    ((sortBy le l).map f).Perm (l.map f) :=
  (List.perm_insertionSort _ l).map f

theorem selectClientsByLeastConnections_perm (clients : List ClientConfig)
    (activeCounts : Option (List (String × ℤ))) :
    (selectClientsByLeastConnections clients activeCounts).Perm clients :=
  (sortBy_map_perm _ _ _).trans (by simp [List.map_map, Function.comp_def])

theorem selectClients_perm (hashScore : String → String → ℕ → ℚ) (keys : ℕ → SortKey)
    (clients : List ClientConfig) (routingKeys : Option (List (String × ℕ)))
    (strategy : LoadBalancingStrategy) (activeCounts : Option (List (String × ℤ))) :
    (selectClients hashScore keys clients routingKeys strategy activeCounts).Perm clients := by
  have hrandom : (selectClientsByRandomWeight keys clients).Perm clients := by
    have hmap : (clients.zipIdx.map fun (client, i) ↦
        if client.priority.getD 0 = 0 then ((0 : ℚ), client) else ((keys i).1, client)).map
          (·.2) = clients := by
      rw [List.map_map]
      have hsnd : ((fun x : ℚ × ClientConfig ↦ x.2) ∘ fun (p : ClientConfig × ℕ) ↦
          if p.1.priority.getD 0 = 0 then ((0 : ℚ), p.1) else ((keys p.2).1, p.1)) = Prod.fst := by
        funext p
        dsimp only [Function.comp_apply]
        split <;> rfl
      rw [hsnd, List.zipIdx_map_fst]
    exact (sortBy_map_perm _ _ _).trans (List.Perm.of_eq hmap)
  unfold selectClients
  split
  · exact List.Perm.refl _
  split
  · exact hrandom
  · split
    · exact (sortBy_map_perm _ _ _).trans (by simp [List.map_map, Function.comp_def])
    · exact hrandom
  · exact selectClientsByLeastConnections_perm _ _

instance : Std.Total fun a b : ℚ × ClientConfig ↦ fewerConnections a b = true := by
  refine ⟨fun a b ↦ ?_⟩
  simp only [fewerConnections, Bool.or_eq_true, Bool.and_eq_true, decide_eq_true_eq, beq_iff_eq]
  rcases lt_trichotomy a.1 b.1 with h | h | h
  · exact .inl (.inl h)
  · rcases le_total b.2.name a.2.name with hn | hn
    · exact .inl (.inr ⟨h, hn⟩)
    · exact .inr (.inr ⟨h.symm, hn⟩)
  · exact .inr (.inl h)

instance : IsTrans (ℚ × ClientConfig) fun a b ↦ fewerConnections a b = true := by
  refine ⟨fun a b c ↦ ?_⟩
  simp only [fewerConnections, Bool.or_eq_true, Bool.and_eq_true, decide_eq_true_eq, beq_iff_eq]
  rintro (hab | ⟨hab, hn⟩) (hbc | ⟨hbc, hn'⟩)
  · exact .inl (hab.trans hbc)
  · exact .inl (hbc ▸ hab)
  · exact .inl (hab ▸ hbc)
  · exact .inr ⟨hab.trans hbc, hn'.trans hn⟩

theorem fewerConnections_le {a b : ℚ × ClientConfig} (h : fewerConnections a b = true) :
    a.1 ≤ b.1 := by
  simp only [fewerConnections, Bool.or_eq_true, Bool.and_eq_true, decide_eq_true_eq,
    beq_iff_eq] at h
  rcases h with h | ⟨h, _⟩
  · exact h.le
  · exact h.le

theorem selectClientsByLeastConnections_pairwise (clients : List ClientConfig)
    (activeCounts : Option (List (String × ℤ))) :
    (selectClientsByLeastConnections clients activeCounts).Pairwise fun a b ↦
      connectionScore (activeCounts.getD []) a ≤ connectionScore (activeCounts.getD []) b := by
  let scored := clients.map fun client ↦ (connectionScore (activeCounts.getD []) client, client)
  have hsorted : (sortBy fewerConnections scored).Pairwise fun a b ↦ fewerConnections a b = true :=
    List.pairwise_insertionSort _ _
  have hscore : ∀ x ∈ sortBy fewerConnections scored,
      x.1 = connectionScore (activeCounts.getD []) x.2 := by
    intro x hx
    obtain ⟨client, _, rfl⟩ := List.mem_map.mp ((List.perm_insertionSort _ _).mem_iff.mp hx)
    rfl
  refine List.pairwise_map.mpr (hsorted.imp_of_mem fun ha hb hab ↦ ?_)
  rw [← hscore _ ha, ← hscore _ hb]
  exact fewerConnections_le hab

end QueQiao.Routing
