import QueQiao.Client.Routing
import Mathlib.Algebra.BigOperators.Group.List.Basic
import Mathlib.Data.List.MinMax

namespace QueQiao.Routing

section Winner

variable (hashScore : String → String → ℕ → ℚ)

def keyScore (key : String) (client : ClientConfig) : ℚ :=
  if client.priority.getD 0 = 0 then 0 else hashScore key client.name (client.priority.getD 0)

/-- No two clients have the same score for a key. -/
def NoTies (clients : List ClientConfig) (keys : List (String × ℕ)) : Prop :=
  ∀ p ∈ keys, ∀ a ∈ clients, ∀ b ∈ clients, a ≠ b →
    keyScore hashScore p.1 a ≠ keyScore hashScore p.1 b

structure Wins (clients : List ClientConfig) (key : String) (client : ClientConfig) : Prop where
  mem : client ∈ clients
  highest : ∀ other ∈ clients, other ≠ client →
    keyScore hashScore key other < keyScore hashScore key client

def better (key : String) (best : String × ℚ) (client : ClientConfig) : String × ℚ :=
  if keyScore hashScore key client > best.2 then (client.name, keyScore hashScore key client)
  else best

theorem bestClientName_eq (clients : List ClientConfig) (key : String) :
    bestClientName hashScore clients key = (clients.foldl (better hashScore key) ("", -1)).1 := rfl

variable {hashScore} {key : String}

theorem foldl_better_stays {clients : List ClientConfig} {best : String × ℚ}
    (h : ∀ client ∈ clients, keyScore hashScore key client ≤ best.2) :
    clients.foldl (better hashScore key) best = best := by
  induction clients with
  | nil => rfl
  | cons client clients ih =>
    rw [List.forall_mem_cons] at h
    rw [List.foldl_cons, better, if_neg (not_lt.mpr h.1)]
    exact ih h.2

theorem foldl_better_wins {clients : List ClientConfig} {client : ClientConfig}
    {best : String × ℚ} (h : Wins hashScore clients key client)
    (hbest : best.2 < keyScore hashScore key client) :
    (clients.foldl (better hashScore key) best).1 = client.name := by
  induction clients generalizing best with
  | nil => cases h.mem
  | cons first rest ih =>
    rw [List.foldl_cons]
    by_cases hfirst : first = client
    · subst hfirst
      rw [better, if_pos hbest, foldl_better_stays]
      intro other hother
      by_cases heq : other = first
      · rw [heq]
      · exact (h.highest other (List.mem_cons_of_mem _ hother) heq).le
    · have hlower := h.highest first List.mem_cons_self hfirst
      have hrest : Wins hashScore rest key client := by
        refine ⟨(List.mem_cons.mp h.mem).resolve_left (Ne.symm hfirst), ?_⟩
        intro other hother hne
        exact h.highest other (List.mem_cons_of_mem _ hother) hne
      apply ih hrest
      rw [better]
      split
      · exact hlower
      · exact hbest

theorem keyScore_nonneg (hscore : ∀ key name priority, 0 ≤ hashScore key name priority)
    (client : ClientConfig) : 0 ≤ keyScore hashScore key client := by
  rw [keyScore]
  split
  · exact le_rfl
  · exact hscore _ _ _

theorem Wins.name (hscore : ∀ key name priority, 0 ≤ hashScore key name priority)
    {clients : List ClientConfig} {client : ClientConfig} (h : Wins hashScore clients key client) :
    bestClientName hashScore clients key = client.name := by
  rw [bestClientName_eq]
  apply foldl_better_wins h
  have hstart : (-1 : ℚ) < 0 := by decide
  exact hstart.trans_le (keyScore_nonneg hscore client)

theorem exists_wins {clients : List ClientConfig} (hne : clients ≠ [])
    (hties : ∀ a ∈ clients, ∀ b ∈ clients, a ≠ b →
      keyScore hashScore key a ≠ keyScore hashScore key b) :
    ∃ client, Wins hashScore clients key client := by
  cases hmax : clients.argmax (keyScore hashScore key) with
  | none => exact absurd (List.argmax_eq_none.mp hmax) hne
  | some client =>
    have hmem := List.argmax_mem hmax
    refine ⟨client, hmem, fun other hother hdiff ↦ ?_⟩
    apply lt_of_le_of_ne (List.le_of_mem_argmax hother hmax)
    exact hties other hother client hmem hdiff

end Winner

section Scores

variable (hashScore : String → String → ℕ → ℚ)

def voteFor (clients : List ClientConfig) (name : String) (p : String × ℕ) : ℕ :=
  let best := bestClientName hashScore clients p.1
  if best ≠ "" ∧ name = best then p.2 else 0

def addVote (clients : List ClientConfig) (scores : String → ℕ) (p : String × ℕ) : String → ℕ :=
  let best := bestClientName hashScore clients p.1
  if best = "" then scores
  else fun name ↦ if name = best then scores name + p.2 else scores name

theorem clientScores_eq (clients : List ClientConfig) (keys : List (String × ℕ)) :
    clientScores hashScore clients keys = keys.foldl (addVote hashScore clients) fun _ ↦ 0 := rfl

theorem addVote_eq (clients : List ClientConfig) (scores : String → ℕ) (p : String × ℕ)
    (name : String) :
    addVote hashScore clients scores p name =
      scores name + voteFor hashScore clients name p := by
  rw [addVote, voteFor]
  by_cases hempty : bestClientName hashScore clients p.1 = ""
  · rw [if_pos hempty, if_neg (fun h ↦ h.1 hempty), Nat.add_zero]
  · rw [if_neg hempty]
    by_cases hname : name = bestClientName hashScore clients p.1
    · rw [if_pos hname, if_pos ⟨hempty, hname⟩]
    · rw [if_neg hname, if_neg (fun h ↦ hname h.2), Nat.add_zero]

theorem foldl_addVote (clients : List ClientConfig) (keys : List (String × ℕ))
    (scores : String → ℕ) (name : String) :
    keys.foldl (addVote hashScore clients) scores name =
      scores name + (keys.map (voteFor hashScore clients name)).sum := by
  induction keys generalizing scores with
  | nil => rfl
  | cons p keys ih =>
    rw [List.foldl_cons, ih, List.map_cons, List.sum_cons, ← Nat.add_assoc, addVote_eq]

theorem clientScores_eq_sum (clients : List ClientConfig) (keys : List (String × ℕ))
    (name : String) :
    clientScores hashScore clients keys name = (keys.map (voteFor hashScore clients name)).sum := by
  rw [clientScores_eq, foldl_addVote, Nat.zero_add]

variable {hashScore}

theorem clientScores_perm_keys {clients : List ClientConfig} {keys keys' : List (String × ℕ)}
    (h : keys'.Perm keys) :
    clientScores hashScore clients keys' = clientScores hashScore clients keys := by
  funext name
  rw [clientScores_eq_sum, clientScores_eq_sum]
  exact (h.map _).sum_eq

theorem clientScores_congr {clients clients' : List ClientConfig} {keys : List (String × ℕ)}
    (h : ∀ p ∈ keys,
      bestClientName hashScore clients' p.1 = bestClientName hashScore clients p.1) :
    clientScores hashScore clients' keys = clientScores hashScore clients keys := by
  funext name
  rw [clientScores_eq_sum, clientScores_eq_sum]
  apply congrArg List.sum
  apply List.map_congr_left
  intro p hp
  rw [voteFor, voteFor, h p hp]

end Scores

section Ranking

def before (a b : ℕ × ClientConfig) : Bool :=
  b.1 < a.1 || (a.1 == b.1 && decide (a.2.name ≤ b.2.name))

theorem before_iff (a b : ℕ × ClientConfig) :
    before a b = true ↔ b.1 < a.1 ∨ a.1 = b.1 ∧ a.2.name ≤ b.2.name := by
  simp only [before, Bool.or_eq_true, Bool.and_eq_true, decide_eq_true_eq, beq_iff_eq]

instance : Std.Total fun a b : ℕ × ClientConfig ↦ before a b = true := by
  refine ⟨fun a b ↦ ?_⟩
  rw [before_iff, before_iff]
  rcases le_total a.2.name b.2.name with hname | hname
  · by_cases h : a.1 = b.1
    · exact .inl (.inr ⟨h, hname⟩)
    · omega
  · by_cases h : a.1 = b.1
    · exact .inr (.inr ⟨h.symm, hname⟩)
    · omega

instance : IsTrans (ℕ × ClientConfig) fun a b ↦ before a b = true := by
  refine ⟨fun a b c ↦ ?_⟩
  rw [before_iff, before_iff, before_iff]
  rintro (hab | ⟨hab, hname⟩) (hbc | ⟨hbc, hname'⟩)
  · exact .inl (hbc.trans hab)
  · exact .inl (hbc ▸ hab)
  · exact .inl (hab ▸ hbc)
  · exact .inr ⟨hab.trans hbc, hname.trans hname'⟩

def ranked (scores : String → ℕ) (clients : List ClientConfig) : List (ℕ × ClientConfig) :=
  sortBy before (clients.map fun client ↦ (scores client.name, client))

theorem ranked_pairwise (scores : String → ℕ) (clients : List ClientConfig) :
    (ranked scores clients).Pairwise fun a b ↦ before a b = true :=
  List.pairwise_insertionSort _ _

theorem ranked_perm (scores : String → ℕ) (clients : List ClientConfig) :
    (ranked scores clients).Perm (clients.map fun client ↦ (scores client.name, client)) :=
  List.perm_insertionSort _ _

theorem eq_of_ranked {scores : String → ℕ} {clients : List ClientConfig}
    (hnames : (clients.map (·.name)).Nodup) {l l' : List (ℕ × ClientConfig)}
    (hl : l.Pairwise fun a b ↦ before a b = true) (hl' : l'.Pairwise fun a b ↦ before a b = true)
    (hperm : l.Perm (clients.map fun client ↦ (scores client.name, client)))
    (hperm' : l'.Perm (clients.map fun client ↦ (scores client.name, client))) : l = l' := by
  apply List.Perm.eq_of_pairwise _ hl hl' (hperm.trans hperm'.symm)
  intro a b ha hb hab hba
  obtain ⟨client, hclient, rfl⟩ := List.mem_map.mp (hperm.mem_iff.mp ha)
  obtain ⟨client', hclient', rfl⟩ := List.mem_map.mp (hperm'.mem_iff.mp hb)
  rw [before_iff] at hab hba
  have hname : client.name = client'.name := by
    rcases hab with hab | ⟨_, hle⟩
    · rcases hba with hba | ⟨heq, _⟩
      · omega
      · omega
    · rcases hba with hba | ⟨_, hle'⟩
      · omega
      · exact le_antisymm hle hle'
  rw [List.inj_on_of_nodup_map hnames hclient hclient' hname]

end Ranking

section Law

variable {hashScore : String → String → ℕ → ℚ} {clients : List ClientConfig}
  {keys : List (String × ℕ)}

theorem selectClientsByVoting_eq (clients : List ClientConfig) (keys : List (String × ℕ)) :
    selectClientsByVoting hashScore clients keys =
      (ranked (clientScores hashScore clients keys) clients).map (·.2) := rfl

theorem selectClientsByVoting_perm (clients : List ClientConfig) (keys : List (String × ℕ)) :
    (selectClientsByVoting hashScore clients keys).Perm clients :=
  (sortBy_map_perm _ _ _).trans (by simp [List.map_map, Function.comp_def])

def without (client : ClientConfig) (clients : List ClientConfig) : List ClientConfig :=
  clients.filter fun other ↦ other.name ≠ client.name

section Winners

variable (hscore : ∀ key name priority, 0 ≤ hashScore key name priority)
include hscore

theorem bestClientName_perm {clients' : List ClientConfig} (h : clients'.Perm clients)
    (hties : NoTies hashScore clients keys) {p : String × ℕ} (hp : p ∈ keys) :
    bestClientName hashScore clients' p.1 = bestClientName hashScore clients p.1 := by
  by_cases hne : clients = []
  · rw [hne, List.perm_nil] at h
    rw [h, hne]
  obtain ⟨client, hwins⟩ := exists_wins hne (hties p hp)
  have hwins' : Wins hashScore clients' p.1 client :=
    ⟨h.mem_iff.mpr hwins.mem, fun other hother ↦ hwins.highest other (h.mem_iff.mp hother)⟩
  rw [hwins.name hscore, hwins'.name hscore]

theorem bestClientName_without (hties : NoTies hashScore clients keys) {p : String × ℕ}
    (hp : p ∈ keys) {client : ClientConfig}
    (hlost : bestClientName hashScore clients p.1 ≠ client.name) :
    bestClientName hashScore (without client clients) p.1 =
      bestClientName hashScore clients p.1 := by
  by_cases hne : clients = []
  · rw [hne]
    rfl
  obtain ⟨winner, hwins⟩ := exists_wins hne (hties p hp)
  have hname := hwins.name hscore
  rw [hname] at hlost ⊢
  have hwins' : Wins hashScore (without client clients) p.1 winner := by
    refine ⟨List.mem_filter.mpr ⟨hwins.mem, by simpa using hlost⟩, fun other hother ↦ ?_⟩
    exact hwins.highest other (List.mem_of_mem_filter hother)
  exact hwins'.name hscore

end Winners

theorem selectClientsByVoting_congr {clients' : List ClientConfig} {keys' : List (String × ℕ)}
    (hnames : (clients.map (·.name)).Nodup) (hperm : clients'.Perm clients)
    (hscores : clientScores hashScore clients' keys' = clientScores hashScore clients keys) :
    selectClientsByVoting hashScore clients' keys' =
      selectClientsByVoting hashScore clients keys := by
  rw [selectClientsByVoting_eq, selectClientsByVoting_eq, hscores]
  apply congrArg (List.map _)
  apply eq_of_ranked hnames (ranked_pairwise _ _) (ranked_pairwise _ _) _ (ranked_perm _ _)
  exact (ranked_perm _ _).trans (hperm.map _)

theorem selectClientsByVoting_without (hnames : (clients.map (·.name)).Nodup)
    {client : ClientConfig}
    (hscores : clientScores hashScore (without client clients) keys =
      clientScores hashScore clients keys) :
    selectClientsByVoting hashScore (without client clients) keys =
      without client (selectClientsByVoting hashScore clients keys) := by
  have hsub : ((without client clients).map (·.name)).Nodup :=
    hnames.sublist (List.filter_sublist.map _)
  have houter (l : List (ℕ × ClientConfig)) : without client (l.map (·.2)) =
      (l.filter fun p ↦ p.2.name ≠ client.name).map (·.2) := List.filter_map
  rw [selectClientsByVoting_eq, selectClientsByVoting_eq, hscores, houter]
  apply congrArg (List.map _)
  apply eq_of_ranked hsub (ranked_pairwise _ _) ((ranked_pairwise _ _).filter _) (ranked_perm _ _)
  refine ((ranked_perm _ clients).filter _).trans (List.Perm.of_eq ?_)
  rw [List.filter_map]
  rfl

/-- The vote orders the clients whatever the order in which clients and keys are given, and
removing a client reassigns only the keys that it won. -/
theorem selectClientsByVoting_law
    (hscore : ∀ key name priority, 0 ≤ hashScore key name priority)
    (hnames : (clients.map (·.name)).Nodup) (hties : NoTies hashScore clients keys) :
    (selectClientsByVoting hashScore clients keys).Perm clients ∧
    (∀ clients' keys', clients'.Perm clients → keys'.Perm keys →
      selectClientsByVoting hashScore clients' keys' =
        selectClientsByVoting hashScore clients keys) ∧
    ∀ client ∈ clients,
      (∀ p ∈ keys, bestClientName hashScore clients p.1 ≠ client.name →
        bestClientName hashScore (without client clients) p.1 =
          bestClientName hashScore clients p.1) ∧
      ((∀ p ∈ keys, bestClientName hashScore clients p.1 ≠ client.name) →
        selectClientsByVoting hashScore (without client clients) keys =
          without client (selectClientsByVoting hashScore clients keys)) := by
  refine ⟨selectClientsByVoting_perm clients keys, ?_, fun client _ ↦ ⟨?_, ?_⟩⟩
  · intro clients' keys' hclients hkeys
    apply selectClientsByVoting_congr hnames hclients
    rw [clientScores_perm_keys hkeys]
    apply clientScores_congr
    intro p hp
    exact bestClientName_perm hscore hclients hties hp
  · intro p hp hlost
    exact bestClientName_without hscore hties hp hlost
  · intro hlost
    apply selectClientsByVoting_without hnames
    apply clientScores_congr
    intro p hp
    exact bestClientName_without hscore hties hp (hlost p hp)

def firstBackend : ClientConfig where
  name := "a"
  priority := some 1

def secondBackend : ClientConfig where
  name := "b"
  priority := some 2

def byName (_key name : String) (_priority : ℕ) : ℚ := if name = "a" then 1 / 4 else 1 / 2

theorem selectClientsByVoting_law_two :
    selectClientsByVoting byName [firstBackend, secondBackend] [("k", 3)] =
        selectClientsByVoting byName [secondBackend, firstBackend] [("k", 3)] ∧
      selectClientsByVoting byName [secondBackend] [("k", 3)] = [secondBackend] := by
  have hscore (key name : String) (priority : ℕ) : 0 ≤ byName key name priority := by
    rw [byName]
    split <;> decide +kernel
  have hnames : ([secondBackend, firstBackend].map (·.name)).Nodup := by decide
  have hties : NoTies byName [secondBackend, firstBackend] [("k", 3)] := by
    simp [NoTies, keyScore, byName, firstBackend, secondBackend]
  have hlaw := selectClientsByVoting_law hscore hnames hties
  refine ⟨hlaw.2.1 _ _ (List.Perm.swap _ _ _) (List.Perm.refl _), ?_⟩
  exact ((hlaw.2.2 firstBackend (by decide)).2 (by decide +kernel)).trans
    (by decide +kernel)

end Law

end QueQiao.Routing
