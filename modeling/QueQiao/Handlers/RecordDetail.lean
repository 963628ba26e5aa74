import QueQiao.Db.Archive
import QueQiao.Lib.Transition

namespace QueQiao.RecordDetail

open Lib.Transition Aggregate Archive

/-- The shard that a request names, and the one that an answer names. -/
inductive Label
  | active
  | archive (store : ℕ)
  deriving DecidableEq, Repr

inductive Answer
  | found (store : ℕ) (row : Record) (shard : Option Label)
  | shardNotFound
  | recordNotFound
  | ambiguous (archives : List ℕ)
  | queryFailed
  deriving DecidableEq, Repr

/-- `SELECT .. FROM records WHERE id = ?`: the records of a store have the ids from 1 on. -/
def fetchDetailRow (db : Aggregate.System) (store : ℕ) (id : ℤ) : Option Record :=
  if 1 ≤ id then (db.records store)[(id - 1).toNat]? else none

/-- Where a request for a record stands: in the scan of the archive directory, after it, with the
store that it asks, without a record in the active store, or with the archives that are still to be
asked and what those asked have. -/
inductive Pc
  | start
  | listed (stores : List ℕ)
  | scanned
  | asking (store : ℕ) (shard : Option Label)
  | missed
  | searching (pending : List ℕ) (hits : List (ℕ × Record))
  | done (answer : Answer)
  deriving DecidableEq, Repr

structure System where
  db : Aggregate.System
  registry : List ArchiveShard
  pc : Pc

def System.init (identity : Identity) (records : List Record) : System where
  db := .init identity records
  registry := []
  pc := .start

/-- The database goes on, another request registers an archive, or the request takes its next
step. A scan opens some of the archives, and a query can fail. -/
inductive Event
  | db (e : Aggregate.Event)
  | register (store : ℕ)
  | list
  | scan (opens : ℕ → Bool)
  | pick
  | take
  | ask (ok : Bool)
  | search (store : ℕ) (ok : Bool)
  | conclude

def conclusion : List (ℕ × Record) → Answer
  | [] => .recordNotFound
  | [(store, row)] => .found store row (some (.archive store))
  | hits => .ambiguous (hits.map (·.1))

variable (localDayMs : Calendar) (shard : Option Label) (id : ℤ)

def step (s : System) : Event → Option System
  | .db e => (Aggregate.step localDayMs s.db e).map fun db ↦ { s with db := db }
  | .register store =>
    match s.pc with
    | .listed _ => none
    | _ =>
      if store ∈ s.db.archived then
        some { s with registry := registerShards s.db s.registry [store] }
      else none
  | .list =>
    match s.pc, shard with
    | .start, some (.archive _) => some { s with pc := .listed s.db.archived }
    | .missed, _ => some { s with pc := .listed s.db.archived }
    | _, _ => none
  | .scan opens =>
    match s.pc with
    | .listed stores => some { s with
        registry := registerShards s.db s.registry (stores.filter opens)
        pc := .scanned }
    | _ => none
  | .pick =>
    match s.pc, shard with
    | .scanned, some (.archive store) => some { s with
        pc :=
          if store ∈ s.registry.map (·.store) then .asking store (some (.archive store))
          else .done .shardNotFound }
    | .scanned, none => some { s with pc := .searching (s.registry.map (·.store)) [] }
    | _, _ => none
  | .take =>
    match s.pc, shard with
    | .start, some .active => some { s with pc := .asking s.db.active (some .active) }
    | .start, none => some { s with pc := .asking s.db.active none }
    | _, _ => none
  | .ask ok =>
    match s.pc with
    | .asking store label => some { s with
        pc :=
          if ok then
            match fetchDetailRow s.db store id, label with
            | some row, _ => .done (.found store row label)
            | none, some _ => .done .recordNotFound
            | none, none => .missed
          else .done .queryFailed }
    | _ => none
  | .search store ok =>
    match s.pc with
    | .searching pending hits =>
      if store ∈ pending then some { s with
        pc :=
          if ok then
            .searching (pending.erase store)
              (hits ++ ((fetchDetailRow s.db store id).map (store, ·)).toList)
          else .done .queryFailed }
      else none
    | _ => none
  | .conclude =>
    match s.pc with
    | .searching [] hits => some { s with pc := .done (conclusion hits) }
    | _ => none

inductive DetailStep (s : System) (e : Event) : System → Prop
  | db (e' : Aggregate.Event) (db : Aggregate.System)
      (hs : Aggregate.step localDayMs s.db e' = some db) : DetailStep s e { s with db := db }
  | register (store : ℕ) (archived : store ∈ s.db.archived) (pc : ∀ stores, s.pc ≠ .listed stores) :
      DetailStep s e { s with registry := registerShards s.db s.registry [store] }
  | list (pc : s.pc = .start ∧ shard.any (· ≠ .active) ∨ s.pc = .missed) :
      DetailStep s e { s with pc := .listed s.db.archived }
  | scan (stores : List ℕ) (opens : ℕ → Bool) (pc : s.pc = .listed stores)
      (event : e = .scan opens) :
      DetailStep s e { s with
        registry := registerShards s.db s.registry (stores.filter opens)
        pc := .scanned }
  | get (store : ℕ) (pc : s.pc = .scanned) (asked : shard = some (.archive store)) :
      DetailStep s e { s with
        pc :=
          if store ∈ s.registry.map (·.store) then .asking store (some (.archive store))
          else .done .shardNotFound }
  | allShards (pc : s.pc = .scanned) (asked : shard = none) :
      DetailStep s e { s with pc := .searching (s.registry.map (·.store)) [] }
  | take (pc : s.pc = .start) (asked : shard.all (· = .active)) :
      DetailStep s e { s with pc := .asking s.db.active shard }
  | failed (pc : (∃ store label, s.pc = .asking store label) ∨
        ∃ pending hits, s.pc = .searching pending hits) :
      DetailStep s e { s with pc := .done .queryFailed }
  | found (store : ℕ) (label : Option Label) (row : Record) (pc : s.pc = .asking store label)
      (row_eq : fetchDetailRow s.db store id = some row) :
      DetailStep s e { s with pc := .done (.found store row label) }
  | notFound (store : ℕ) (label : Label) (pc : s.pc = .asking store (some label))
      (row_eq : fetchDetailRow s.db store id = none) :
      DetailStep s e { s with pc := .done .recordNotFound }
  | missed (store : ℕ) (pc : s.pc = .asking store none)
      (row_eq : fetchDetailRow s.db store id = none) : DetailStep s e { s with pc := .missed }
  | search (store : ℕ) (pending : List ℕ) (hits : List (ℕ × Record))
      (pc : s.pc = .searching pending hits) (mem : store ∈ pending) :
      DetailStep s e { s with
        pc := .searching (pending.erase store)
          (hits ++ ((fetchDetailRow s.db store id).map (store, ·)).toList) }
  | conclude (hits : List (ℕ × Record)) (pc : s.pc = .searching [] hits) :
      DetailStep s e { s with pc := .done (conclusion hits) }

structure DetailInv (s : System) : Prop where
  path : PathInv s.db
  registry : RegistryInv s.db s.registry
  listed : ∀ stores, s.pc = .listed stores → stores.Nodup ∧ ∀ store ∈ stores, store ∈ s.db.archived

structure Later (s₀ s : System) : Prop where
  records : ∀ store, s₀.db.records store <+: s.db.records store
  archived : ∀ store ∈ s₀.db.archived, store ∈ s.db.archived
  active : s₀.db.active ≤ s.db.active

/-- What opens when no shard is named: the record, or the record of a newer store that has its id,
or a list of all archives with the id. -/
def Opened (s : System) (store : ℕ) (r : Record) : Answer → Prop
  | .found k row none => (k = store ∧ row = r) ∨ store < k ∧ fetchDetailRow s.db k id = some row
  | .found k row (some label) => k = store ∧ row = r ∧ label = .archive store
  | .ambiguous archives => store ∈ archives ∧ archives.Nodup ∧ 2 ≤ archives.length ∧
      ∀ k ∈ archives, (fetchDetailRow s.db k id).isSome
  | .shardNotFound | .recordNotFound | .queryFailed => False

/-- What a request for a record that was there when it began is answered with. -/
def Linked (s : System) (store : ℕ) (r : Record) (answer : Answer) : Prop :=
  match shard with
  | some (.archive _) => answer = .found store r shard
  | some .active => s.db.active = store → answer = .found store r shard
  | none => (s.db.active = store → answer = .found store r none) ∧ Opened id s store r answer

def LinkInv (s₀ : System) (store : ℕ) (r : Record) (s : System) : Prop :=
  match s.pc with
  | .start => True
  | .listed stores => store ∈ stores ∧ (shard = none → store < s.db.active)
  | .scanned => store ∈ s.registry.map (·.store) ∧ (shard = none → store < s.db.active)
  | .asking k label => label = shard ∧ (∀ j, shard = some (.archive j) → k = store) ∧
      (shard.all (· = .active) → s₀.db.active ≤ k ∧ k ≤ s.db.active)
  | .missed => shard = none ∧ store ∈ s.db.archived ∧ store < s.db.active
  | .searching pending hits => shard = none ∧ store < s.db.active ∧
      (pending ++ hits.map (·.1)).Nodup ∧ (store ∈ pending ∨ (store, r) ∈ hits) ∧
      ∀ hit ∈ hits, fetchDetailRow s.db hit.1 id = some hit.2
  | .done answer => answer ≠ .queryFailed → Linked shard id s store r answer

section Invariant

variable {localDayMs shard id} {s s₀ t : System} {e : Event} {store : ℕ} {r : Record}

theorem detailStep (hs : step localDayMs shard id s e = some t) :
    DetailStep localDayMs shard id s e t := by
  cases e with
  | db e =>
    obtain ⟨db, hdb, rfl⟩ := Option.map_eq_some_iff.mp hs
    exact .db e db hdb
  | register store =>
    simp only [step] at hs
    split at hs
    · cases hs
    · rename_i hpc
      split at hs
      · rename_i hmem
        cases hs
        exact .register store hmem hpc
      · cases hs
  | list =>
    simp only [step] at hs
    split at hs
    · rename_i store hpc
      cases hs
      exact .list (.inl ⟨hpc, by simp⟩)
    · rename_i hpc
      cases hs
      exact .list (.inr hpc)
    · cases hs
  | scan opens =>
    simp only [step] at hs
    split at hs
    · rename_i stores hpc
      cases hs
      exact .scan stores opens hpc rfl
    · cases hs
  | pick =>
    simp only [step] at hs
    split at hs
    · rename_i store hpc
      cases hs
      exact .get store hpc rfl
    · rename_i hpc
      cases hs
      exact .allShards hpc rfl
    · cases hs
  | take =>
    simp only [step] at hs
    split at hs
    · rename_i hpc
      cases hs
      exact .take hpc rfl
    · rename_i hpc
      cases hs
      exact .take hpc rfl
    · cases hs
  | ask ok =>
    simp only [step] at hs
    split at hs
    · rename_i store label hpc
      cases ok with
      | false =>
        cases hs
        exact .failed (.inl ⟨store, label, hpc⟩)
      | true =>
        cases hrow : fetchDetailRow s.db store id with
        | some row =>
          rw [hrow] at hs
          cases hs
          exact .found store label row hpc hrow
        | none =>
          rw [hrow] at hs
          cases label with
          | some label =>
            cases hs
            exact .notFound store label hpc hrow
          | none =>
            cases hs
            exact .missed store hpc hrow
    · cases hs
  | search store ok =>
    simp only [step] at hs
    split at hs
    · rename_i pending hits hpc
      split at hs
      · rename_i hmem
        cases ok with
        | false =>
          cases hs
          exact .failed (.inr ⟨pending, hits, hpc⟩)
        | true =>
          cases hs
          exact .search store pending hits hpc hmem
      · cases hs
    · cases hs
  | conclude =>
    simp only [step] at hs
    split at hs
    · rename_i hits hpc
      cases hs
      exact .conclude hits hpc
    · cases hs

theorem later_refl (s : System) : Later s s := ⟨fun _ ↦ List.prefix_rfl, fun _ ↦ id, le_rfl⟩

theorem Later.step (h : Later s₀ s) (hinv : DetailInv s)
    (hs : step localDayMs shard id s e = some t) : Later s₀ t := by
  cases detailStep hs with
  | db e' db hdb =>
    exact ⟨fun store ↦ (h.records store).trans (step_records_grow hdb store),
      fun store hmem ↦ step_archived hdb (h.archived store hmem),
      h.active.trans (step_active_le hinv.path hdb)⟩
  | _ => exact ⟨h.records, h.archived, h.active⟩

theorem fetchDetailRow_grow {db db' : Aggregate.System} (h : db.records store <+: db'.records store)
    (hrow : fetchDetailRow db store id = some r) : fetchDetailRow db' store id = some r := by
  rw [fetchDetailRow] at hrow ⊢
  split at hrow
  · rename_i hid
    obtain ⟨later, hlater⟩ := h
    rw [if_pos hid, ← hlater, List.getElem?_append_left (List.getElem?_eq_some_iff.mp hrow).1]
    exact hrow
  · cases hrow

theorem Opened.grow {db' : Aggregate.System} {answer : Answer} (h : Opened id s store r answer)
    (hrecords : ∀ store, s.db.records store <+: db'.records store) :
    Opened id { s with db := db' } store r answer := by
  cases answer with
  | found k row label =>
    cases label with
    | none => exact h.imp_right fun ⟨hlt, hrow⟩ ↦ ⟨hlt, fetchDetailRow_grow (hrecords k) hrow⟩
    | some label => exact h
  | ambiguous archives =>
    obtain ⟨hmem, hnodup, hlen, hhas⟩ := h
    refine ⟨hmem, hnodup, hlen, fun k hk ↦ ?_⟩
    obtain ⟨row, hrow⟩ := Option.isSome_iff_exists.mp (hhas k hk)
    exact Option.isSome_of_eq_some (fetchDetailRow_grow (hrecords k) hrow)
  | shardNotFound | recordNotFound | queryFailed => exact h

theorem LinkInv.db {db' : Aggregate.System} (h : LinkInv shard id s₀ store r s)
    (hrecords : ∀ store, s.db.records store <+: db'.records store)
    (harchived : ∀ store ∈ s.db.archived, store ∈ db'.archived) (hactive : s.db.active ≤ db'.active)
    (hstore : store ≤ s.db.active) : LinkInv shard id s₀ store r { s with db := db' } := by
  rw [LinkInv] at h ⊢
  dsimp only
  cases hpc : s.pc with
  | start => trivial
  | listed stores =>
    rw [hpc] at h
    exact ⟨h.1, fun hnone ↦ (h.2 hnone).trans_le hactive⟩
  | scanned =>
    rw [hpc] at h
    exact ⟨h.1, fun hnone ↦ (h.2 hnone).trans_le hactive⟩
  | asking k label =>
    rw [hpc] at h
    exact ⟨h.1, h.2.1, fun hasked ↦ ⟨(h.2.2 hasked).1, (h.2.2 hasked).2.trans hactive⟩⟩
  | missed =>
    rw [hpc] at h
    exact ⟨h.1, harchived store h.2.1, h.2.2.trans_le hactive⟩
  | searching pending hits =>
    rw [hpc] at h
    obtain ⟨hnone, hlt, hnodup, hmem, hhits⟩ := h
    exact ⟨hnone, hlt.trans_le hactive, hnodup, hmem,
      fun hit hhit ↦ fetchDetailRow_grow (hrecords hit.1) (hhits hit hhit)⟩
  | done answer =>
    rw [hpc] at h
    intro hok
    have hlinked := h hok
    have hstays : db'.active = store → s.db.active = store := fun heq ↦
      (hactive.trans heq.le).antisymm hstore
    cases shard with
    | none => exact ⟨fun heq ↦ hlinked.1 (hstays heq), hlinked.2.grow hrecords⟩
    | some label =>
      cases label with
      | active => exact fun heq ↦ hlinked (hstays heq)
      | archive k => exact hlinked

end Invariant

end QueQiao.RecordDetail
