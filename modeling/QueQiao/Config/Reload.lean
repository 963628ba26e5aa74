import QueQiao.Lib.Transition
import Mathlib.Data.List.Nodup

namespace QueQiao.ConfigManager

open Lib.Transition

/-- The file as one write leaves it, with its modification time and size. -/
structure FileVersion (φ γ : Type) where
  fingerprint : φ
  contents : γ

/-- A task in `reload_if_changed`, by what it has done last. The versions are the numbers of
those it met when it took the fingerprint and when it read the file. -/
inductive Task (φ χ : Type)
  | spawned
  | stated (fingerprint : φ) (version : ℕ)
  | compared (fingerprint : φ) (version : ℕ)
  | loaded (fingerprint : φ) (version : ℕ) (newConfig : χ) (read : ℕ)
  | returned

/-- The manager, with the versions the file has had, the tasks and the numbers of the versions
that tasks have applied. -/
structure Manager (φ γ χ : Type) where
  file : List (FileVersion φ γ)
  config : χ
  configGeneration : ℕ
  lastApplied : φ
  tasks : List (Task φ χ) := []
  applied : List ℕ := []

namespace Manager

variable {φ γ χ : Type}

/-- The number of the version that is in force: version 0 is the one loaded at the start. -/
def inForce (s : Manager φ γ χ) : ℕ := s.applied.getLastD 0

/-- `initial` is the fingerprint that `ConfigManager::new` takes after it has loaded the file, or
the default. `load` stands for `load_config` on what the file contains: `none` where it does not
parse or is not valid. -/
def new (load : γ → Option χ) (first : FileVersion φ γ) (initial : φ) :
    Option (Manager φ γ χ) :=
  (load first.contents).map fun config ↦
    { file := [first], config := config, configGeneration := 1, lastApplied := initial }

def setTask (s : Manager φ γ χ) (i : ℕ) (task : Task φ χ) : Manager φ γ χ :=
  { s with tasks := s.tasks.set i task }

end Manager

inductive Event (φ γ : Type)
  | modify (version : FileVersion φ γ)
  | spawn
  | run (task : ℕ)
  | unreadable (task : ℕ)

section Transitions

variable {φ γ χ : Type} [DecidableEq φ]

/-- The last step of `reload_if_changed`, under the two locks. -/
def apply (s : Manager φ γ χ) (fingerprint : φ) (newConfig : χ) (read : ℕ) : Manager φ γ χ :=
  if s.lastApplied = fingerprint then s
  else
    { s with
      config := newConfig
      configGeneration := (s.configGeneration + 1) % 0x10000000000000000
      lastApplied := fingerprint
      applied := s.applied ++ [read] }

def reloadIfChanged (load : γ → Option χ) (s : Manager φ γ χ) (i : ℕ) :
    Task φ χ → Option (Manager φ γ χ)
  | .spawned =>
    s.file.getLast?.map fun version ↦
      s.setTask i (.stated version.fingerprint (s.file.length - 1))
  | .stated fingerprint version =>
    some (s.setTask i
      (if s.lastApplied = fingerprint then .returned else .compared fingerprint version))
  | .compared fingerprint version =>
    s.file.getLast?.map fun current ↦
      s.setTask i (match load current.contents with
        | some newConfig => .loaded fingerprint version newConfig (s.file.length - 1)
        | none => .returned)
  | .loaded fingerprint _ newConfig read =>
    some ((apply s fingerprint newConfig read).setTask i .returned)
  | .returned => none

def step (load : γ → Option χ) (s : Manager φ γ χ) : Event φ γ → Option (Manager φ γ χ)
  | .modify version => some { s with file := s.file ++ [version] }
  | .spawn => some { s with tasks := s.tasks ++ [.spawned] }
  | .run i => s.tasks[i]?.bind (reloadIfChanged load s i)
  | .unreadable i => s.tasks[i]?.bind fun
    | .spawned | .compared _ _ => some (s.setTask i .returned)
    | .stated _ _ | .loaded _ _ _ _ | .returned => none

end Transitions

section Order

variable {φ γ χ : Type}

/-- No version is applied after a newer one or a second time, the generation counts the
applications, and the configuration is that of the version in force. -/
structure Ordered (load : γ → Option χ) (s : Manager φ γ χ) : Prop where
  newer : s.applied.Pairwise (· ≤ ·)
  once : s.applied.Nodup
  generation : s.configGeneration = (1 + s.applied.length) % 0x10000000000000000
  inForce : ∃ version, s.file[s.inForce]? = some version ∧ load version.contents = some s.config

/-- A task holds the fingerprint of the version it took it from, and the configuration of the
version it read. -/
def Task.Ok (load : γ → Option χ) (file : List (FileVersion φ γ)) : Task φ χ → Prop
  | .stated fingerprint version | .compared fingerprint version =>
    (file[version]?.map (·.fingerprint)) = some fingerprint
  | .loaded fingerprint version newConfig read =>
    (file[version]?.map (·.fingerprint)) = some fingerprint ∧
    ∃ current, file[read]? = some current ∧ load current.contents = some newConfig
  | .spawned | .returned => True

structure Inv (load : γ → Option χ) (s : Manager φ γ χ) : Prop where
  ordered : Ordered load s
  recorded : s.applied ≠ [] → s.file[s.inForce]?.map (·.fingerprint) = some s.lastApplied
  tasks : ∀ task ∈ s.tasks, task.Ok load s.file

variable {load : γ → Option χ}

theorem getElem?_append {α : Type} {xs : List α} {n : ℕ} {x : α} (ys : List α)
    (h : xs[n]? = some x) : (xs ++ ys)[n]? = some x := by
  rw [List.getElem?_append_left (List.getElem?_eq_some_iff.mp h).1]
  exact h

theorem fingerprint_append {file : List (FileVersion φ γ)} {n : ℕ} {fingerprint : φ}
    (later : List (FileVersion φ γ)) (h : file[n]?.map (·.fingerprint) = some fingerprint) :
    (file ++ later)[n]?.map (·.fingerprint) = some fingerprint := by
  obtain ⟨version, hversion, hfingerprint⟩ := Option.map_eq_some_iff.mp h
  rw [getElem?_append later hversion, Option.map_some, hfingerprint]

theorem Task.Ok.append {file : List (FileVersion φ γ)} {task : Task φ χ}
    (later : List (FileVersion φ γ)) (h : task.Ok load file) : task.Ok load (file ++ later) := by
  cases task with
  | spawned | returned => trivial
  | stated | compared => exact fingerprint_append later h
  | loaded fingerprint version newConfig read =>
    obtain ⟨hstated, current, hcurrent, hload⟩ := h
    exact ⟨fingerprint_append later hstated, current, getElem?_append later hcurrent, hload⟩

theorem inv_new {first : FileVersion φ γ} {initial : φ} {s : Manager φ γ χ}
    (h : Manager.new load first initial = some s) : Inv load s := by
  obtain ⟨config, hconfig, rfl⟩ := Option.map_eq_some_iff.mp h
  refine ⟨⟨List.Pairwise.nil, List.nodup_nil, rfl, first, rfl, hconfig⟩, ?_, ?_⟩
  · intro hne
    exact absurd rfl hne
  · intro task htask
    cases htask

theorem inv_setTask {s : Manager φ γ χ} {i : ℕ} {task : Task φ χ} (hs : Inv load s)
    (htask : task.Ok load s.file) : Inv load (s.setTask i task) := by
  refine ⟨⟨hs.ordered.newer, hs.ordered.once, hs.ordered.generation, hs.ordered.inForce⟩,
    hs.recorded, ?_⟩
  intro own hown
  rcases List.mem_or_eq_of_mem_set hown with hown | rfl
  · exact hs.tasks own hown
  · exact htask

theorem inv_modify {s : Manager φ γ χ} (hs : Inv load s) (version : FileVersion φ γ) :
    Inv load { s with file := s.file ++ [version] } := by
  obtain ⟨current, hcurrent, hload⟩ := hs.ordered.inForce
  refine ⟨⟨hs.ordered.newer, hs.ordered.once, hs.ordered.generation, current,
    getElem?_append [version] hcurrent, hload⟩, ?_, ?_⟩
  · intro hne
    exact fingerprint_append [version] (hs.recorded hne)
  · intro task htask
    exact (hs.tasks task htask).append [version]

theorem inv_spawn {s : Manager φ γ χ} (hs : Inv load s) :
    Inv load { s with tasks := s.tasks ++ [.spawned] } := by
  refine ⟨⟨hs.ordered.newer, hs.ordered.once, hs.ordered.generation, hs.ordered.inForce⟩,
    hs.recorded, ?_⟩
  intro task htask
  rcases List.mem_append.mp htask with htask | htask
  · exact hs.tasks task htask
  · rw [List.mem_singleton.mp htask]
    trivial

theorem le_inForce {s : Manager φ γ χ} (h : s.applied.Pairwise (· ≤ ·)) :
    ∀ version ∈ s.applied, version ≤ s.inForce := by
  intro version hversion
  rw [Manager.inForce]
  rcases List.eq_nil_or_concat s.applied with hnil | ⟨before, last, hconcat⟩
  · rw [hnil] at hversion
    cases hversion
  · rw [hconcat, List.concat_eq_append] at h hversion ⊢
    rw [List.getLastD_concat]
    rcases List.mem_append.mp hversion with hversion | hversion
    · exact (List.pairwise_append.mp h).2.2 version hversion last (List.mem_singleton_self last)
    · exact Nat.le_of_eq (List.mem_singleton.mp hversion)

variable [DecidableEq φ]

/-- A task that holds a configuration holds that of the version whose fingerprint it took, and
by the time it applies it no newer version is in force. -/
def Task.InOrder (s : Manager φ γ χ) : Task φ χ → Prop
  | .loaded fingerprint version _ read =>
    s.lastApplied ≠ fingerprint → read = version ∧ s.inForce ≤ read
  | .spawned | .stated _ _ | .compared _ _ | .returned => True

instance (s : Manager φ γ χ) : DecidablePred (Task.InOrder s)
  | .loaded fingerprint version _ read =>
    inferInstanceAs (Decidable (s.lastApplied ≠ fingerprint → read = version ∧ s.inForce ≤ read))
  | .spawned | .stated _ _ | .compared _ _ | .returned => inferInstanceAs (Decidable True)

def InOrder (s : Manager φ γ χ) : Event φ γ → Prop
  | .run i => ∀ task ∈ s.tasks[i]?, task.InOrder s
  | .modify _ | .spawn | .unreadable _ => True

instance (s : Manager φ γ χ) : DecidablePred (InOrder s)
  | .run i => inferInstanceAs (Decidable (∀ task ∈ s.tasks[i]?, task.InOrder s))
  | .modify _ | .spawn | .unreadable _ => inferInstanceAs (Decidable True)

theorem inv_apply {s : Manager φ γ χ} {fingerprint : φ} {newConfig : χ} {read : ℕ}
    (hs : Inv load s) (htask : (Task.loaded fingerprint read newConfig read).Ok load s.file)
    (hle : s.inForce ≤ read) (hne : s.lastApplied ≠ fingerprint) :
    Inv load (apply s fingerprint newConfig read) := by
  obtain ⟨hstated, current, hcurrent, hload⟩ := htask
  have hnew : read ∉ s.applied := by
    intro hmem
    have heq : s.inForce = read := Nat.le_antisymm hle (le_inForce hs.ordered.newer read hmem)
    have hrecorded := hs.recorded (List.ne_nil_of_mem hmem)
    rw [heq, hstated] at hrecorded
    exact hne (Option.some.inj hrecorded).symm
  have hinForce : (s.applied ++ [read]).getLastD 0 = read := List.getLastD_concat
  rw [apply, if_neg hne]
  refine ⟨⟨?_, ?_, ?_, current, ?_, hload⟩, ?_, hs.tasks⟩
  · refine List.pairwise_append.mpr ⟨hs.ordered.newer, List.pairwise_singleton _ _, ?_⟩
    intro version hversion last hlast
    rw [List.mem_singleton.mp hlast]
    exact Nat.le_trans (le_inForce hs.ordered.newer version hversion) hle
  · refine List.nodup_append.mpr ⟨hs.ordered.once, List.nodup_singleton read, ?_⟩
    intro version hversion last hlast heq
    rw [List.mem_singleton.mp hlast] at heq
    exact hnew (heq ▸ hversion)
  · simp only [hs.ordered.generation, List.length_append, List.length_singleton]
    omega
  · rw [Manager.inForce, hinForce]
    exact hcurrent
  · intro _
    rw [Manager.inForce, hinForce]
    exact hstated

theorem inv_reloadIfChanged {s t : Manager φ γ χ} {i : ℕ} {task : Task φ χ} (hs : Inv load s)
    (htask : s.tasks[i]? = some task) (hok : InOrder s (.run i))
    (h : reloadIfChanged load s i task = some t) : Inv load t := by
  have hown := hs.tasks task (List.mem_of_getElem? htask)
  cases task with
  | spawned =>
    obtain ⟨version, hversion, rfl⟩ := Option.map_eq_some_iff.mp h
    apply inv_setTask hs
    rw [List.getLast?_eq_getElem?] at hversion
    exact congrArg (Option.map _) hversion
  | stated fingerprint version =>
    cases h
    apply inv_setTask hs
    split
    · trivial
    · exact hown
  | compared fingerprint version =>
    obtain ⟨current, hcurrent, rfl⟩ := Option.map_eq_some_iff.mp h
    rw [List.getLast?_eq_getElem?] at hcurrent
    apply inv_setTask hs
    cases hload : load current.contents with
    | none => trivial
    | some newConfig => exact ⟨hown, current, hcurrent, hload⟩
  | loaded fingerprint version newConfig read =>
    cases h
    by_cases heq : s.lastApplied = fingerprint
    · rw [apply, if_pos heq]
      exact inv_setTask hs trivial
    · obtain ⟨rfl, hle⟩ := hok (.loaded fingerprint version newConfig read) htask heq
      exact inv_setTask (inv_apply hs hown hle heq) trivial
  | returned => cases h

theorem inv_step {s t : Manager φ γ χ} {l : Event φ γ} (hs : Inv load s) (hok : InOrder s l)
    (h : step load s l = some t) : Inv load t := by
  cases l with
  | modify version =>
    cases h
    exact inv_modify hs version
  | spawn =>
    cases h
    exact inv_spawn hs
  | run i =>
    obtain ⟨task, htask, h⟩ := Option.bind_eq_some_iff.mp h
    exact inv_reloadIfChanged hs htask hok h
  | unreadable i =>
    obtain ⟨task, -, h⟩ := Option.bind_eq_some_iff.mp h
    cases task with
    | spawned | compared =>
      cases h
      exact inv_setTask hs trivial
    | stated | loaded | returned => cases h

/-- Where every task applies what it holds in order, the versions in force only get newer. -/
theorem reload_ordered (load : γ → Option χ) (first : FileVersion φ γ) (initial : φ)
    (s₀ : Manager φ γ χ) (hnew : Manager.new load first initial = some s₀)
    (tr : List (Manager φ γ χ × Event φ γ)) (s : Manager φ γ χ) (h : Path (step load) s₀ tr s)
    (hok : ∀ p ∈ tr, InOrder p.1 p.2) : Ordered load s :=
  (h.invariant InOrder hok (inv_new hnew) fun _ _ _ hs hl hst ↦ inv_step hs hl hst).ordered

end Order

def edition (n : ℕ) : FileVersion ℕ ℕ := ⟨n, 10 * n⟩

def firstEdition : Manager ℕ ℕ ℕ :=
  { file := [edition 0], config := 0, configGeneration := 1, lastApplied := 0 }

/-- Two tasks read the same version, and the second finds that it is live. -/
def racingTasks : List (Event ℕ ℕ) :=
  [.modify (edition 1), .spawn, .spawn, .run 0, .run 1, .run 0, .run 1, .run 0, .run 1, .run 0,
    .run 1]

theorem reload_ordered_racing :
    ∃ (tr : List (Manager ℕ ℕ ℕ × Event ℕ ℕ)) (s : Manager ℕ ℕ ℕ),
      Path (step some) firstEdition tr s ∧ s.applied = [1] ∧ Ordered some s := by
  have hrun : (trace (step some) firstEdition racingTasks).map
      (fun r ↦ (r.2.applied, r.1.all fun p ↦ decide (InOrder p.1 p.2))) = some ([1], true) := by
    decide +kernel
  obtain ⟨⟨tr, s⟩, hr, hs⟩ := Option.map_eq_some_iff.mp hrun
  obtain ⟨happlied, hok⟩ := Prod.mk.inj hs
  refine ⟨tr, s, Path.of_trace hr, happlied, ?_⟩
  apply reload_ordered some (edition 0) 0 firstEdition rfl tr s (Path.of_trace hr)
  intro p hp
  exact of_decide_eq_true (List.all_eq_true.mp hok p hp)

/-- The first task reads version 1 and applies it after the second has applied version 2; a third
task then applies version 2 again. -/
def overtakenTask : List (Event ℕ ℕ) :=
  [.modify (edition 1), .spawn, .run 0, .run 0, .run 0, .modify (edition 2), .spawn, .run 1,
    .run 1, .run 1, .run 1, .run 0, .spawn, .run 2, .run 2, .run 2, .run 2]

theorem reload_goes_back :
    ∃ (tr : List (Manager ℕ ℕ ℕ × Event ℕ ℕ)) (s : Manager ℕ ℕ ℕ),
      Path (step some) firstEdition tr s ∧ s.applied = [2, 1, 2] ∧
      ¬s.applied.Pairwise (· ≤ ·) ∧ ¬s.applied.Nodup := by
  have hrun : (trace (step some) firstEdition overtakenTask).map (·.2.applied) =
      some [2, 1, 2] := by
    decide +kernel
  obtain ⟨⟨tr, s⟩, hr, happlied⟩ := Option.map_eq_some_iff.mp hrun
  have happlied : s.applied = [2, 1, 2] := happlied
  refine ⟨tr, s, Path.of_trace hr, happlied, ?_, ?_⟩
  · rw [happlied]
    decide
  · rw [happlied]
    decide

end QueQiao.ConfigManager
