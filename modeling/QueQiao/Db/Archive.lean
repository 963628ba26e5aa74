import QueQiao.Db.Rotation
import Mathlib.Data.List.Nodup

namespace QueQiao.Archive

open Aggregate

structure Bounds where
  fromMs : Option ℤ
  toMs : Option ℤ
  deriving DecidableEq, Repr

def Bounds.isNone (bounds : Bounds) : Bool := bounds.fromMs.isNone && bounds.toMs.isNone

/-- The conditions of `build_filters` on `TimeMs`; no value meets none. -/
def Bounds.within (bounds : Bounds) (r : Record) : Bool :=
  (bounds.fromMs.all fun lo ↦ r.timeMs.any (lo ≤ ·)) &&
    bounds.toMs.all fun hi ↦ r.timeMs.any (· ≤ hi)

structure ArchiveShard where
  store : ℕ
  minMs : Option ℤ
  maxMs : Option ℤ
  deriving DecidableEq, Repr

def times (records : List Record) : List ℤ := records.filterMap (·.timeMs)

def openArchiveShard (db : System) (store : ℕ) : ArchiveShard where
  store := store
  minMs := (times (db.records store)).min?
  maxMs := (times (db.records store)).max?

def ArchiveShard.overlaps (bounds : Bounds) (shard : ArchiveShard) : Bool :=
  match shard.minMs, shard.maxMs with
  | some lo, some hi => bounds.fromMs.all (· ≤ hi) && bounds.toMs.all (lo ≤ ·)
  | _, _ => false

def candidates (bounds : Bounds) (registry : List ArchiveShard) : List ℕ :=
  (registry.filter (·.overlaps bounds)).map (·.store)

def registerShards (db : System) (registry : List ArchiveShard) (listed : List ℕ) :
    List ArchiveShard :=
  registry ++
    (listed.filter fun store ↦ store ∉ registry.map (·.store)).map (openArchiveShard db)

structure RegistryInv (db : System) (registry : List ArchiveShard) : Prop where
  archived : ∀ shard ∈ registry, shard.store ∈ db.archived
  opened : ∀ shard ∈ registry, shard = openArchiveShard db shard.store
  nodup : (registry.map (·.store)).Nodup

variable {localDayMs : Calendar} {bounds : Bounds} {db db' : System}
  {registry : List ArchiveShard} {store : ℕ} {listed : List ℕ} {e : Event}

theorem mem_registerShards :
    store ∈ (registerShards db registry listed).map (·.store) ↔
      store ∈ registry.map (·.store) ∨ store ∈ listed := by
  by_cases hmem : store ∈ registry.map (·.store)
  · simp only [registerShards, List.map_append, List.mem_append, hmem, true_or]
  · have hopen : ((listed.filter fun store ↦ store ∉ registry.map (·.store)).map
        (openArchiveShard db)).map (·.store) =
        listed.filter fun store ↦ store ∉ registry.map (·.store) := by
      rw [List.map_map]
      exact List.map_id _
    rw [registerShards, List.map_append, List.mem_append, hopen, List.mem_filter]
    simp only [hmem, not_false_eq_true, decide_true, and_true, false_or]

theorem RegistryInv.registerShards (h : RegistryInv db registry)
    (harchived : ∀ store ∈ listed, store ∈ db.archived) (hnodup : listed.Nodup) :
    RegistryInv db (registerShards db registry listed) := by
  have hnew {shard : ArchiveShard}
      (hmem : shard ∈ (listed.filter fun store ↦ store ∉ registry.map (·.store)).map
        (openArchiveShard db)) :
      shard.store ∈ listed ∧ shard = openArchiveShard db shard.store := by
    obtain ⟨store, hstore, rfl⟩ := List.mem_map.mp hmem
    exact ⟨List.mem_of_mem_filter hstore, rfl⟩
  refine ⟨fun shard hmem ↦ ?_, fun shard hmem ↦ ?_, ?_⟩
  · rcases List.mem_append.mp hmem with hold | hmem
    · exact h.archived shard hold
    · exact harchived shard.store (hnew hmem).1
  · rcases List.mem_append.mp hmem with hold | hmem
    · exact h.opened shard hold
    · exact (hnew hmem).2
  · rw [Archive.registerShards, List.map_append, List.map_map]
    refine h.nodup.append ?_ fun store hold hmem ↦ ?_
    · rw [show (ArchiveShard.store ∘ openArchiveShard db) = id from rfl, List.map_id]
      exact hnodup.filter _
    · obtain ⟨store', hstore, rfl⟩ := List.mem_map.mp hmem
      have hnot := (List.mem_filter.mp hstore).2
      exact (of_decide_eq_true hnot) hold

theorem RegistryInv.step (h : RegistryInv db registry) (hpath : PathInv db)
    (hs : step localDayMs db e = some db') : RegistryInv db' registry where
  archived shard hmem := step_archived hs (h.archived shard hmem)
  opened shard hmem := by
    have hsame := step_records_archived hpath hs (h.archived shard hmem)
    rw [openArchiveShard, hsame]
    exact h.opened shard hmem
  nodup := h.nodup

theorem overlaps_openArchiveShard {r : Record} (hmem : r ∈ db.records store)
    (hwithin : bounds.within r = true) (hbounds : bounds.isNone = false) :
    (openArchiveShard db store).overlaps bounds = true := by
  obtain ⟨fromMs, toMs⟩ := bounds
  simp only [Bounds.within, Bool.and_eq_true, Option.all_eq_true, Option.any_eq_true,
    decide_eq_true_eq] at hwithin
  obtain ⟨hfrom, hto⟩ := hwithin
  obtain ⟨ms, hms⟩ : ∃ ms, r.timeMs = some ms := by
    cases fromMs with
    | some lo => exact (hfrom lo rfl).imp fun _ ↦ And.left
    | none =>
      cases toMs with
      | some hi => exact (hto hi rfl).imp fun _ ↦ And.left
      | none => cases hbounds
  have htime : ms ∈ times (db.records store) := List.mem_filterMap.mpr ⟨r, hmem, hms⟩
  obtain ⟨lo, hlo⟩ := Option.isSome_iff_exists.mp (List.isSome_min?_of_mem htime)
  obtain ⟨hi, hhi⟩ := Option.isSome_iff_exists.mp (List.isSome_max?_of_mem htime)
  have hle := (List.min?_eq_some_iff.mp hlo).2 ms htime
  have hge := (List.max?_eq_some_iff.mp hhi).2 ms htime
  simp only [ArchiveShard.overlaps, openArchiveShard, hlo, hhi, Bool.and_eq_true,
    Option.all_eq_true, decide_eq_true_eq]
  refine ⟨fun b hb ↦ ?_, fun b hb ↦ ?_⟩
  · obtain ⟨ms', hms', hb'⟩ := hfrom b hb
    cases hms.symm.trans hms'
    exact hb'.trans hge
  · obtain ⟨ms', hms', hb'⟩ := hto b hb
    cases hms.symm.trans hms'
    exact hle.trans hb'

theorem RegistryInv.count_candidates (h : RegistryInv db registry) {r : Record}
    (hmem : r ∈ db.records store) (hwithin : bounds.within r = true)
    (hbounds : bounds.isNone = false) :
    (candidates bounds registry).count store =
      if store ∈ registry.map (·.store) then 1 else 0 := by
  have hnodup : (candidates bounds registry).Nodup :=
    h.nodup.sublist (List.filter_sublist.map _)
  rw [hnodup.count]
  refine if_congr ⟨fun hcand ↦ ?_, fun hreg ↦ ?_⟩ rfl rfl
  · exact (List.filter_sublist.map _).subset hcand
  · obtain ⟨shard, hshard, rfl⟩ := List.mem_map.mp hreg
    refine List.mem_map.mpr ⟨shard, List.mem_filter.mpr ⟨hshard, ?_⟩, rfl⟩
    rw [h.opened shard hshard]
    exact overlaps_openArchiveShard hmem hwithin hbounds

end QueQiao.Archive
