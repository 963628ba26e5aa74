import QueQiao.Db.Archive
import QueQiao.Lib.Transition

namespace QueQiao.ShardRead

open Lib.Transition Aggregate Archive

/-- Where a read over all shards stands: in the scan of the archive directory, after it, with
the candidates, or with the shards that are still to be queried and the rows (store and
position) that it has read. -/
inductive Pc
  | start
  | listed (stores : List ℕ)
  | scanned
  | picked (candidates : List ℕ)
  | reading (pending : List ℕ) (rows : List (ℕ × ℕ))
  deriving DecidableEq, Repr

structure System where
  db : Aggregate.System
  registry : List ArchiveShard
  pc : Pc

def System.init (identity : Identity) (records : List Record) : System where
  db := .init identity records
  registry := []
  pc := .start

/-- The database goes on, another request registers an archive, or the read takes its next
step. The queries of the shards run side by side. -/
inductive Event
  | db (e : Aggregate.Event)
  | register (store : ℕ)
  | list
  | scan
  | pick
  | take
  | query (store : ℕ)

variable (localDayMs : Calendar) (bounds : Bounds) (others : Record → Bool)

def matching (r : Record) : Bool := bounds.within r && others r

def readShard (db : Aggregate.System) (store : ℕ) : List (ℕ × ℕ) :=
  ((db.records store).zipIdx.filter fun row ↦ matching bounds others row.1).map
    fun row ↦ (store, row.2)

def step (s : System) : Event → Option System
  | .db e => (Aggregate.step localDayMs s.db e).map fun db ↦ { s with db := db }
  | .register store =>
    match s.pc with
    | .listed _ => none
    | _ =>
      if store ∈ s.db.archived then
        some { s with registry := registerShards s.db s.registry [store] }
      else none
  | .list =>
    match s.pc with
    | .start => if bounds.isNone then none else some { s with pc := .listed s.db.archived }
    | _ => none
  | .scan =>
    match s.pc with
    | .listed stores =>
      some { s with registry := registerShards s.db s.registry stores, pc := .scanned }
    | _ => none
  | .pick =>
    match s.pc with
    | .start => if bounds.isNone then some { s with pc := .picked [] } else none
    | .scanned => some { s with pc := .picked (candidates bounds s.registry) }
    | _ => none
  | .take =>
    match s.pc with
    | .picked archives => some { s with pc := .reading (s.db.active :: archives) [] }
    | _ => none
  | .query store =>
    match s.pc with
    | .reading pending rows =>
      if store ∈ pending then
        some { s with
          pc := .reading (pending.erase store) (rows ++ readShard bounds others s.db store) }
      else none
    | _ => none

inductive ReadStep (s : System) : Event → System → Prop
  | db (e : Aggregate.Event) (db : Aggregate.System)
      (hs : Aggregate.step localDayMs s.db e = some db) : ReadStep s (.db e) { s with db := db }
  | register (store : ℕ) (archived : store ∈ s.db.archived) :
      ReadStep s (.register store)
        { s with registry := registerShards s.db s.registry [store] }
  | list (pc : s.pc = .start) : ReadStep s .list { s with pc := .listed s.db.archived }
  | scan (stores : List ℕ) (pc : s.pc = .listed stores) :
      ReadStep s .scan
        { s with registry := registerShards s.db s.registry stores, pc := .scanned }
  | skip (bounds : bounds.isNone = true) : ReadStep s .pick { s with pc := .picked [] }
  | pick (pc : s.pc = .scanned) :
      ReadStep s .pick { s with pc := .picked (candidates bounds s.registry) }
  | take (archives : List ℕ) (pc : s.pc = .picked archives) :
      ReadStep s .take { s with pc := .reading (s.db.active :: archives) [] }
  | query (store : ℕ) (pending : List ℕ) (rows : List (ℕ × ℕ)) (pc : s.pc = .reading pending rows)
      (mem : store ∈ pending) :
      ReadStep s (.query store) { s with
        pc := .reading (pending.erase store) (rows ++ readShard bounds others s.db store) }

def System.Registered (s : System) (store : ℕ) : Prop := store ∈ s.registry.map (·.store)

instance (s : System) (store : ℕ) : Decidable (s.Registered store) :=
  inferInstanceAs (Decidable (_ ∈ _))

def ReadOnce (s₀ : System) (rows : List (ℕ × ℕ)) : Prop :=
  ∀ store i r, (s₀.db.records store)[i]? = some r → matching bounds others r = true →
    rows.count (store, i) = 1

structure ShardsInv (s : System) : Prop where
  path : PathInv s.db
  registry : RegistryInv s.db s.registry
  listed : ∀ stores, s.pc = .listed stores → stores.Nodup ∧ ∀ store ∈ stores, store ∈ s.db.archived

structure Later (s₀ s : System) : Prop where
  records : ∀ store, s₀.db.records store <+: s.db.records store
  archived : ∀ store ∈ s₀.db.archived, store ∈ s.db.archived
  active : s₀.db.active ≤ s.db.active

structure Picked (s₀ p : System) (archives : List ℕ) : Prop where
  registered : ∀ store ∈ s₀.db.archived, p.Registered store
  count : ∀ store r, r ∈ s₀.db.records store → matching bounds others r = true →
    archives.count store = if p.Registered store then 1 else 0

/-- What has been read and what is still to be read of a store: it is picked as an archive in
the state `p`, taken as the active store in the state `q`, both, or neither. -/
structure Counted (s₀ p q : System) (pending : List ℕ) (rows : List (ℕ × ℕ)) : Prop where
  registered : ∀ store ∈ s₀.db.archived, p.Registered store
  active : s₀.db.active ≤ q.db.active
  count : ∀ store i r, (s₀.db.records store)[i]? = some r → matching bounds others r = true →
    rows.count (store, i) + pending.count store =
      (if p.Registered store then 1 else 0) + if q.db.active = store then 1 else 0

def ReadInv (s₀ : System) (tr : List (System × Event)) (s : System) : Prop :=
  match s.pc with
  | .start => ∀ p, (p, .pick) ∉ tr ∧ (p, .take) ∉ tr
  | .listed stores =>
    (∀ p, (p, .pick) ∉ tr ∧ (p, .take) ∉ tr) ∧ ∀ store ∈ s₀.db.archived, store ∈ stores
  | .scanned =>
    (∀ p, (p, .pick) ∉ tr ∧ (p, .take) ∉ tr) ∧ ∀ store ∈ s₀.db.archived, s.Registered store
  | .picked archives =>
    (∀ q, (q, .take) ∉ tr) ∧ ∀ p, (p, .pick) ∈ tr → Picked bounds others s₀ p archives
  | .reading pending rows =>
    ∀ p q, (p, .pick) ∈ tr → (q, .take) ∈ tr → Counted bounds others s₀ p q pending rows

section Invariant

variable {localDayMs bounds others} {s s₀ t : System} {e : Event}

theorem shardsInv_init (identity : Identity) (records : List Record) :
    ShardsInv (.init identity records) where
  path := pathInv_init identity records
  registry := ⟨nofun, nofun, List.nodup_nil⟩
  listed := nofun

theorem archived_nodup (db : Aggregate.System) : db.archived.Nodup :=
  List.nodup_range.filter _

theorem readStep (hs : step localDayMs bounds others s e = some t) :
    ReadStep localDayMs bounds others s e t := by
  cases e with
  | db e =>
    obtain ⟨db, hdb, rfl⟩ := Option.map_eq_some_iff.mp hs
    exact .db e db hdb
  | register store =>
    simp only [step] at hs
    split at hs
    · cases hs
    · split at hs
      · rename_i hmem
        cases hs
        exact .register store hmem
      · cases hs
  | list =>
    simp only [step] at hs
    split at hs
    · rename_i hpc
      split at hs <;> cases hs
      exact .list hpc
    · cases hs
  | scan =>
    simp only [step] at hs
    split at hs
    · rename_i stores hpc
      cases hs
      exact .scan stores hpc
    · cases hs
  | pick =>
    simp only [step] at hs
    split at hs
    · split at hs
      · rename_i hbounds
        cases hs
        exact .skip hbounds
      · cases hs
    · rename_i hpc
      cases hs
      exact .pick hpc
    · cases hs
  | take =>
    simp only [step] at hs
    split at hs
    · rename_i archives hpc
      cases hs
      exact .take archives hpc
    · cases hs
  | query store =>
    simp only [step] at hs
    split at hs
    · rename_i pending rows hpc
      split at hs
      · rename_i hmem
        cases hs
        exact .query store pending rows hpc hmem
      · cases hs
    · cases hs

theorem shardsInv_step (h : ShardsInv s) (hs : step localDayMs bounds others s e = some t) :
    ShardsInv t := by
  cases readStep hs with
  | db e db hdb =>
    refine ⟨pathInv_step h.path hdb, h.registry.step h.path hdb, fun stores hpc ↦ ?_⟩
    obtain ⟨hnodup, harchived⟩ := h.listed stores hpc
    exact ⟨hnodup, fun store hmem ↦ step_archived hdb (harchived store hmem)⟩
  | register store hmem =>
    refine ⟨h.path, h.registry.registerShards (fun store' hstore ↦ ?_)
      (List.nodup_singleton store), h.listed⟩
    rwa [List.mem_singleton.mp hstore]
  | list hpc =>
    refine ⟨h.path, h.registry, fun stores hlisted ↦ ?_⟩
    cases hlisted
    exact ⟨archived_nodup s.db, fun _ ↦ id⟩
  | scan stores hpc =>
    obtain ⟨hnodup, harchived⟩ := h.listed stores hpc
    exact ⟨h.path, h.registry.registerShards harchived hnodup, nofun⟩
  | skip | pick | take | query => exact ⟨h.path, h.registry, nofun⟩

theorem later_refl (s : System) : Later s s := ⟨fun _ ↦ List.prefix_rfl, fun _ ↦ id, le_rfl⟩

theorem Later.step (h : Later s₀ s) (hinv : ShardsInv s)
    (hs : step localDayMs bounds others s e = some t) : Later s₀ t := by
  cases readStep hs with
  | db e db hdb =>
    exact ⟨fun store ↦ (h.records store).trans (step_records_grow hdb store),
      fun store hmem ↦ step_archived hdb (h.archived store hmem),
      h.active.trans (step_active_le hinv.path hdb)⟩
  | register | list | scan | skip | pick | take | query => exact ⟨h.records, h.archived, h.active⟩

theorem readShard_count {db : Aggregate.System} {store i : ℕ} {r : Record}
    (hget : (db.records store)[i]? = some r) (hmatch : matching bounds others r = true)
    (store' : ℕ) :
    (readShard bounds others db store').count (store, i) = if store' = store then 1 else 0 := by
  have hnodup : (readShard bounds others db store').Nodup := by
    show (List.map (Prod.mk store' ∘ Prod.snd) _).Nodup
    rw [← List.map_map]
    refine List.Nodup.map (fun _ _ heq ↦ (Prod.mk.inj heq).2) ?_
    refine List.Nodup.sublist (List.filter_sublist.map _) ?_
    rw [List.zipIdx_map_snd]
    exact List.nodup_range'
  rw [hnodup.count]
  refine if_congr ⟨fun hmem ↦ ?_, fun heq ↦ ?_⟩ rfl rfl
  · obtain ⟨row, -, hrow⟩ := List.mem_map.mp hmem
    exact (Prod.mk.inj hrow).1
  · subst heq
    refine List.mem_map.mpr ⟨(r, i), List.mem_filter.mpr ⟨?_, hmatch⟩, rfl⟩
    exact List.mk_mem_zipIdx_iff_getElem?.mpr hget

variable {tr : List (System × Event)}

theorem mem_snoc_of_ne {p : System} {e' : Event} (h : (p, e') ∈ tr ++ [(s, e)]) (hne : e' ≠ e) :
    (p, e') ∈ tr := by
  rcases List.mem_append.mp h with h | h
  · exact h
  · exact absurd (Prod.mk.inj (List.mem_singleton.mp h)).2 hne

theorem mem_snoc_self {p : System} (h : (p, e) ∈ tr ++ [(s, e)]) (hnot : (p, e) ∉ tr) : p = s := by
  rcases List.mem_append.mp h with h | h
  · exact absurd h hnot
  · exact (Prod.mk.inj (List.mem_singleton.mp h)).1

theorem mem_registered {db : Aggregate.System} {registry : List ArchiveShard} {listed : List ℕ}
    {store : ℕ} (h : store ∈ registry.map (·.store)) :
    store ∈ (registerShards db registry listed).map (·.store) :=
  mem_registerShards.mpr (.inl h)

theorem ReadInv.other (h : ReadInv bounds others s₀ tr s) (hpc : t.pc = s.pc)
    (hpick : e ≠ .pick) (htake : e ≠ .take)
    (hregistered : ∀ store, s.Registered store → t.Registered store) :
    ReadInv bounds others s₀ (tr ++ [(s, e)]) t := by
  have hnone (hbefore : ∀ p, (p, Event.pick) ∉ tr ∧ (p, Event.take) ∉ tr) (p : System) :
      (p, Event.pick) ∉ tr ++ [(s, e)] ∧ (p, Event.take) ∉ tr ++ [(s, e)] :=
    ⟨fun hmem ↦ (hbefore p).1 (mem_snoc_of_ne hmem hpick.symm),
      fun hmem ↦ (hbefore p).2 (mem_snoc_of_ne hmem htake.symm)⟩
  rw [ReadInv] at h ⊢
  rw [hpc]
  cases hs : s.pc with
  | start =>
    rw [hs] at h
    exact hnone h
  | listed stores =>
    rw [hs] at h
    exact ⟨hnone h.1, h.2⟩
  | scanned =>
    rw [hs] at h
    exact ⟨hnone h.1, fun store hmem ↦ hregistered store (h.2 store hmem)⟩
  | picked archives =>
    rw [hs] at h
    exact ⟨fun q hmem ↦ h.1 q (mem_snoc_of_ne hmem htake.symm),
      fun p hmem ↦ h.2 p (mem_snoc_of_ne hmem hpick.symm)⟩
  | reading pending rows =>
    rw [hs] at h
    exact fun p q hp hq ↦
      h p q (mem_snoc_of_ne hp hpick.symm) (mem_snoc_of_ne hq htake.symm)

theorem readInv_step (hinv : ShardsInv s) (hlater : Later s₀ s) (hbounds : bounds.isNone = false)
    (h : ReadInv bounds others s₀ tr s) (hs : step localDayMs bounds others s e = some t) :
    ReadInv bounds others s₀ (tr ++ [(s, e)]) t := by
  cases readStep hs with
  | db => exact h.other rfl nofun nofun fun _ ↦ id
  | register => exact h.other rfl nofun nofun fun _ ↦ mem_registered
  | list hpc =>
    rw [ReadInv, hpc] at h
    exact ⟨fun p ↦ ⟨fun hmem ↦ (h p).1 (mem_snoc_of_ne hmem nofun),
      fun hmem ↦ (h p).2 (mem_snoc_of_ne hmem nofun)⟩, hlater.archived⟩
  | scan stores hpc =>
    rw [ReadInv, hpc] at h
    exact ⟨fun p ↦ ⟨fun hmem ↦ (h.1 p).1 (mem_snoc_of_ne hmem nofun),
      fun hmem ↦ (h.1 p).2 (mem_snoc_of_ne hmem nofun)⟩,
      fun store hmem ↦ mem_registerShards.mpr (.inr (h.2 store hmem))⟩
  | skip hnone => cases hbounds.symm.trans hnone
  | pick hpc =>
    rw [ReadInv, hpc] at h
    refine ⟨fun q hmem ↦ (h.1 q).2 (mem_snoc_of_ne hmem nofun), fun p hmem ↦ ?_⟩
    obtain rfl := mem_snoc_self hmem (h.1 p).1
    refine ⟨h.2, fun store r hr hmatch ↦ ?_⟩
    have hr' := (hlater.records store).subset hr
    exact hinv.registry.count_candidates hr' (Bool.and_eq_true_iff.mp hmatch).1 hbounds
  | take archives hpc =>
    rw [ReadInv, hpc] at h
    intro p q hp hq
    obtain rfl := mem_snoc_self hq (h.1 q)
    obtain ⟨hregistered, hcount⟩ := h.2 p (mem_snoc_of_ne hp nofun)
    refine ⟨hregistered, hlater.active, fun store i r hget hmatch ↦ ?_⟩
    rw [List.count_nil, zero_add, List.count_cons,
      hcount store r (List.mem_of_getElem? hget) hmatch]
    simp only [beq_iff_eq]
  | query store' pending rows hpc hmem =>
    rw [ReadInv, hpc] at h
    intro p q hp hq
    obtain ⟨hregistered, hactive, hcount⟩ :=
      h p q (mem_snoc_of_ne hp nofun) (mem_snoc_of_ne hq nofun)
    refine ⟨hregistered, hactive, fun store i r hget hmatch ↦ ?_⟩
    have hget' : (s.db.records store)[i]? = some r := by
      obtain ⟨later, hlater⟩ := hlater.records store
      rw [← hlater, List.getElem?_append_left (List.getElem?_eq_some_iff.mp hget).1]
      exact hget
    rw [← hcount store i r hget hmatch, List.count_append, readShard_count hget' hmatch,
      List.count_erase]
    by_cases heq : store' = store
    · have hpos : 0 < pending.count store' := List.count_pos_iff.mpr hmem
      rw [heq] at hpos
      simp only [heq, if_true, beq_self_eq_true]
      omega
    · simp only [heq, if_false, beq_iff_eq, Nat.add_zero, Nat.sub_zero]

/-- Every store but the one that was active when the read began is read once; that one is read
once as an archive and once as the active store. -/
theorem Counted.once_iff (hinv : ShardsInv s₀) {p q : System} {rows : List (ℕ × ℕ)}
    (h : Counted bounds others s₀ p q [] rows) :
    ReadOnce bounds others s₀ rows ↔
      ((∃ r ∈ s₀.db.records s₀.db.active, matching bounds others r = true) →
        (p.Registered s₀.db.active ↔ q.db.active ≠ s₀.db.active)) := by
  have hcount {store i : ℕ} {r : Record} (hget : (s₀.db.records store)[i]? = some r)
      (hmatch : matching bounds others r = true) :
      rows.count (store, i) = (if p.Registered store then 1 else 0) +
        if q.db.active = store then 1 else 0 := by
    simpa only [List.count_nil, Nat.add_zero] using h.count store i r hget hmatch
  constructor
  · rintro honce ⟨r, hr, hmatch⟩
    obtain ⟨i, hget⟩ := List.mem_iff_getElem?.mp hr
    have hone := (hcount hget hmatch).symm.trans (honce _ i r hget hmatch)
    by_cases hreg : p.Registered s₀.db.active <;>
      by_cases hact : q.db.active = s₀.db.active <;> simp_all
  · intro hcond store i r hget hmatch
    rw [hcount hget hmatch]
    have hmem : r ∈ s₀.db.records store := List.mem_of_getElem? hget
    by_cases hself : store = s₀.db.active
    · subst hself
      have hiff := hcond ⟨r, hmem, hmatch⟩
      by_cases hact : q.db.active = s₀.db.active
      · rw [if_pos hact, if_neg fun hreg ↦ hiff.mp hreg hact]
      · rw [if_neg hact, if_pos (hiff.mpr hact)]
    · have hlt : store < s₀.db.stores.length := by
        by_contra hge
        rw [records_eq_nil (not_lt.mp hge)] at hmem
        cases hmem
      have harchived : store ∈ s₀.db.archived := by
        refine mem_archived.mpr ⟨hlt, fun hpath ↦ ?_⟩
        obtain ⟨hle, hle', -⟩ := hinv.path.path_some hpath
        have hnext : store = s₀.db.active + 1 := by omega
        rw [hnext, hinv.path.fresh (hnext ▸ hpath)] at hmem
        cases hmem
      have hnew : ¬q.db.active = store := by
        intro heq
        have hle := h.active
        have hpath : s₀.db.path ≠ some store := (mem_archived.mp harchived).2
        rcases hinv.path.path with ⟨-, hlen⟩ | ⟨hsome, hlen⟩
        · omega
        · have hnext : store ≠ s₀.db.active + 1 := fun hnext ↦ hpath (hnext ▸ hsome)
          omega
      rw [if_pos (h.registered store harchived), if_neg hnew]

end Invariant

/-- A read with bounds that has picked its candidates in the state `p` and taken the active
store in the state `q` has read each matching record that was committed when it began exactly
once, if and only if the store that was active then was registered as an archive in `p` exactly
when it was no longer the active one in `q`, or holds no such record. -/
theorem readOnce_iff (identity : Identity) (records : List Record)
    {tr₀ tr : List (System × Event)} {s₀ s p q : System} {rows : List (ℕ × ℕ)}
    (hreach : Path (step localDayMs bounds others) (.init identity records) tr₀ s₀)
    (hstart : s₀.pc = .start) (hbounds : bounds.isNone = false)
    (h : Path (step localDayMs bounds others) s₀ tr s) (hp : (p, .pick) ∈ tr)
    (hq : (q, .take) ∈ tr) (hdone : s.pc = .reading [] rows) :
    ReadOnce bounds others s₀ rows ↔
      ((∃ r ∈ s₀.db.records s₀.db.active, matching bounds others r = true) →
        (p.Registered s₀.db.active ↔ q.db.active ≠ s₀.db.active)) := by
  have hinv₀ : ShardsInv s₀ := hreach.invariant_all (shardsInv_init identity records)
    fun s e t hs hst ↦ shardsInv_step hs hst
  have hread : ShardsInv s ∧ Later s₀ s ∧ ReadInv bounds others s₀ tr s := by
    clear hp hq hdone
    induction h with
    | nil =>
      refine ⟨hinv₀, later_refl s₀, ?_⟩
      rw [ReadInv, hstart]
      exact fun p ↦ ⟨List.not_mem_nil, List.not_mem_nil⟩
    | snoc _ hs ih =>
      obtain ⟨hinv, hlater, hread⟩ := ih
      exact ⟨shardsInv_step hinv hs, hlater.step hinv hs,
        readInv_step hinv hlater hbounds hread hs⟩
  have hcounted := hread.2.2
  rw [ReadInv, hdone] at hcounted
  exact (hcounted p q hp hq).once_iff hinv₀

def sinceZero : Bounds := ⟨some 0, none⟩

def betweenRead : List Event :=
  [.db .rename, .list, .scan, .pick, .db (.create (1, 2)), .db .swap, .take, .query 1, .query 0]

theorem readOnce_iff_between :
    ∃ tr s rows, Path (step utcDay sinceZero fun _ ↦ true) (.init (1, 1) [recordAt 5]) tr s ∧
      s.pc = .reading [] rows ∧
        ReadOnce sinceZero (fun _ ↦ true) (.init (1, 1) [recordAt 5]) rows := by
  have hrun : (trace (step utcDay sinceZero fun _ ↦ true) (.init (1, 1) [recordAt 5])
      betweenRead).map (fun r ↦ (r.2.pc, r.1.all fun p ↦
        match p.2 with
        | .pick => decide (p.1.Registered 0)
        | .take => decide (p.1.db.active ≠ 0)
        | _ => true)) = some (.reading [] [(0, 0)], true) := by
    decide +kernel
  obtain ⟨⟨tr, s⟩, hr, hs⟩ := Option.map_eq_some_iff.mp hrun
  obtain ⟨hdone, hall⟩ := Prod.mk.inj hs
  have hstep {e : Event} (he : e ∈ betweenRead) : ∃ p, (p, e) ∈ tr := by
    rw [← trace_labels hr] at he
    obtain ⟨⟨p, e'⟩, hmem, rfl⟩ := List.mem_map.mp he
    exact ⟨p, hmem⟩
  obtain ⟨p, hp⟩ := hstep (e := .pick) (by simp [betweenRead])
  obtain ⟨q, hq⟩ := hstep (e := .take) (by simp [betweenRead])
  refine ⟨tr, s, _, Path.of_trace hr, hdone, (readOnce_iff utcDay sinceZero (fun _ ↦ true) (1, 1)
    [recordAt 5] .nil rfl rfl (Path.of_trace hr) hp hq hdone).mpr fun _ ↦ ?_⟩
  have hpick := List.all_eq_true.mp hall _ hp
  have htake := List.all_eq_true.mp hall _ hq
  exact iff_of_true (of_decide_eq_true hpick) (of_decide_eq_true htake)

theorem record_missed :
    ∃ tr s, Path (step utcDay sinceZero fun _ ↦ true) (.init (1, 1) [recordAt 5]) tr s ∧
      s.pc = .reading [] [] ∧
        ¬ReadOnce sinceZero (fun _ ↦ true) (.init (1, 1) [recordAt 5]) [] := by
  have hrun : (trace (step utcDay sinceZero fun _ ↦ true) (.init (1, 1) [recordAt 5])
      [.list, .scan, .pick, .db .rename, .db (.create (1, 2)), .db .swap, .take, .query 1]).map
        (fun r ↦ r.2.pc) = some (.reading [] []) := by
    decide +kernel
  obtain ⟨⟨tr, s⟩, hr, hdone⟩ := Option.map_eq_some_iff.mp hrun
  refine ⟨tr, s, Path.of_trace hr, hdone, fun h ↦ ?_⟩
  have hone := h 0 0 (recordAt 5) rfl (by decide)
  cases hone

theorem record_read_twice :
    ∃ tr s, Path (step utcDay sinceZero fun _ ↦ true) (.init (1, 1) [recordAt 5]) tr s ∧
      s.pc = .reading [] [(0, 0), (0, 0)] ∧
        ¬ReadOnce sinceZero (fun _ ↦ true) (.init (1, 1) [recordAt 5]) [(0, 0), (0, 0)] := by
  have hrun : (trace (step utcDay sinceZero fun _ ↦ true) (.init (1, 1) [recordAt 5])
      [.db .rename, .list, .scan, .pick, .take, .query 0, .query 0]).map
        (fun r ↦ r.2.pc) = some (.reading [] [(0, 0), (0, 0)]) := by
    decide +kernel
  obtain ⟨⟨tr, s⟩, hr, hdone⟩ := Option.map_eq_some_iff.mp hrun
  refine ⟨tr, s, Path.of_trace hr, hdone, fun h ↦ ?_⟩
  have hone := h 0 0 (recordAt 5) rfl (by decide)
  cases hone

end QueQiao.ShardRead
