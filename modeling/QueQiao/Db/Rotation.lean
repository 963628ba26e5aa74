import QueQiao.Db.EnsureActive

namespace QueQiao.Aggregate

def Event.IsRun : Event → Prop
  | .insert _ | .rename | .create _ | .swap => False
  | _ => True

/-- The files in the archive directory: all but the one at the audit path. -/
def System.archived (s : System) : List ℕ :=
  (List.range s.stores.length).filter fun store ↦ s.path ≠ some store

/-- The active store is the newest but for one that waits, empty, to be swapped in, and the
writer is sealed while its file is not at the audit path. -/
structure PathInv (s : System) : Prop where
  path : (s.path = none ∨ s.path = some s.active) ∧ s.active + 1 = s.stores.length ∨
    s.path = some (s.active + 1) ∧ s.active + 2 = s.stores.length
  sealed : s.path ≠ some s.active → s.sealed = true
  fresh : s.path = some (s.active + 1) → s.records (s.active + 1) = []

inductive StoresStep (s : System) : System → Prop
  | run {t : System} (stores : t.stores = s.stores) (active : t.active = s.active)
      (path : t.path = s.path) (sealed : t.sealed = s.sealed) : StoresStep s t
  | insert (r : Record) (opened : s.sealed = false) :
      StoresStep s { s with stores := s.stores.modify s.active (·.insert r) }
  | rename (path : s.path = some s.active) : StoresStep s { s with path := none, sealed := true }
  | create (identity : Identity) (path : s.path = none) :
      StoresStep s { s with
        stores := s.stores ++ [⟨identity, []⟩]
        path := some s.stores.length }
  | swap (store : ℕ) (path : s.path = some store) :
      StoresStep s { s with active := store, sealed := false }

variable {localDayMs : Calendar} {s t : System} {e : Event} {store : ℕ}

theorem mem_archived : store ∈ s.archived ↔ store < s.stores.length ∧ s.path ≠ some store := by
  simp [System.archived]

theorem step_run (hrun : e.IsRun) (hs : step localDayMs s e = some t) :
    t.stores = s.stores ∧ t.active = s.active ∧ t.path = s.path ∧ t.sealed = s.sealed := by
  cases Stepped.of_step hs with
  | insert | rename | create | swap => exact hrun.elim
  | _ => exact ⟨rfl, rfl, rfl, rfl⟩

theorem step_stores (hs : step localDayMs s e = some t) : StoresStep s t := by
  have hrun (he : e.IsRun) : StoresStep s t := by
    obtain ⟨hstores, hactive, hpath, hsealed⟩ := step_run he hs
    exact .run hstores hactive hpath hsealed
  cases Stepped.of_step hs with
  | insert r hopened => exact .insert r hopened
  | rename hpath => exact .rename hpath
  | create identity hpath => exact .create identity hpath
  | swap hpath => exact .swap _ hpath
  | _ => exact hrun trivial

theorem identity_modify (s : System) (i : ℕ) (r : Record) (k : ℕ) :
    System.identity { s with stores := s.stores.modify i (·.insert r) } k = s.identity k := by
  simp only [System.identity, List.getElem?_modify]
  cases s.stores[k]? with
  | none => rfl
  | some old =>
    by_cases hik : i = k
    · simp [hik, AuditStore.insert]
    · simp [hik]

theorem records_modify_ne (s : System) {i k : ℕ} (r : Record) (hik : i ≠ k) :
    System.records { s with stores := s.stores.modify i (·.insert r) } k = s.records k := by
  simp [System.records, hik]

theorem records_modify (s : System) (i : ℕ) (r : Record) (k : ℕ) :
    System.records { s with stores := s.stores.modify i (·.insert r) } k = s.records k ∨
      System.records { s with stores := s.stores.modify i (·.insert r) } k =
        s.records k ++ [r] := by
  by_cases hik : i = k
  · simp only [System.records, List.getElem?_modify, hik]
    cases s.stores[k]? with
    | none => exact .inl rfl
    | some old => exact .inr rfl
  · exact .inl (records_modify_ne s r hik)

theorem records_eq_nil (h : s.stores.length ≤ store) : s.records store = [] := by
  rw [System.records, List.getElem?_eq_none h]
  rfl

theorem records_append (s : System) (new : AuditStore) (h : store < s.stores.length) :
    System.records { s with stores := s.stores ++ [new] } store = s.records store := by
  rw [System.records, List.getElem?_append_left h, System.records]

theorem identity_append (s : System) (new : AuditStore) (h : store < s.stores.length) :
    System.identity { s with stores := s.stores ++ [new] } store = s.identity store := by
  rw [System.identity, List.getElem?_append_left h, System.identity]

theorem pathInv_init (identity : Identity) (records : List Record) :
    PathInv (.init identity records) where
  path := .inl ⟨.inr rfl, rfl⟩
  sealed := fun h ↦ absurd rfl h
  fresh := nofun

theorem PathInv.active_lt (h : PathInv s) : s.active < s.stores.length := by
  rcases h.path with ⟨-, hlen⟩ | ⟨-, hlen⟩ <;> omega

theorem PathInv.path_some (h : PathInv s) (hpath : s.path = some store) :
    s.active ≤ store ∧ store ≤ s.active + 1 ∧ store + 1 = s.stores.length := by
  rcases h.path with ⟨hnone | hsome, hlen⟩ | ⟨hsome, hlen⟩
  · rw [hpath] at hnone
    cases hnone
  · cases hpath.symm.trans hsome
    omega
  · cases hpath.symm.trans hsome
    omega

theorem PathInv.length_eq (h : PathInv s) (hpath : s.path = none ∨ s.path = some s.active) :
    s.active + 1 = s.stores.length := by
  rcases h.path with ⟨-, hlen⟩ | ⟨hsome, -⟩
  · exact hlen
  · rcases hpath with hpath | hpath
    · cases hpath.symm.trans hsome
    · have hself := Option.some.inj (hpath.symm.trans hsome)
      omega

theorem pathInv_step (h : PathInv s) (hs : step localDayMs s e = some t) : PathInv t := by
  cases step_stores hs with
  | run hstores hactive hpath hsealed =>
    refine ⟨?_, ?_, ?_⟩
    · rw [hpath, hactive, hstores]
      exact h.path
    · rw [hpath, hactive, hsealed]
      exact h.sealed
    · rw [hpath, hactive, System.records, hstores]
      exact h.fresh
  | insert r hopened =>
    refine ⟨by simpa only [List.length_modify] using h.path, h.sealed, fun hnext ↦ ?_⟩
    exact (records_modify_ne s r (Nat.ne_add_one s.active)).trans (h.fresh hnext)
  | rename hpath =>
    exact ⟨.inl ⟨.inl rfl, h.length_eq (.inr hpath)⟩, fun _ ↦ rfl, by simp⟩
  | create identity hpath =>
    have hlen := h.length_eq (.inl hpath)
    refine ⟨.inr ⟨congrArg some hlen.symm, by simp [← hlen]⟩, fun _ ↦ ?_, fun _ ↦ ?_⟩
    · exact h.sealed (by simp [hpath])
    · simp [System.records, hlen]
  | swap store hpath =>
    refine ⟨.inl ⟨.inr hpath, (h.path_some hpath).2.2⟩, fun hne ↦ absurd hpath hne, ?_⟩
    intro hnext
    exact absurd (Option.some.inj (hpath.symm.trans hnext)) (Nat.ne_add_one store)

theorem step_records_grow (hs : step localDayMs s e = some t) (store : ℕ) :
    s.records store <+: t.records store := by
  cases step_stores hs with
  | run hstores => rw [System.records, System.records, hstores]
  | insert r =>
    rcases records_modify s s.active r store with heq | heq
    · rw [heq]
    · rw [heq]
      exact List.prefix_append _ _
  | create identity =>
    rcases Nat.lt_or_ge store s.stores.length with hlt | hge
    · exact ⟨[], (List.append_nil _).trans (records_append s _ hlt).symm⟩
    · rw [records_eq_nil hge]
      exact List.nil_prefix
  | rename | swap => exact List.prefix_rfl

theorem step_records_archived (h : PathInv s) (hs : step localDayMs s e = some t)
    (hstore : store ∈ s.archived) : t.records store = s.records store := by
  rw [mem_archived] at hstore
  cases step_stores hs with
  | run hstores => rw [System.records, System.records, hstores]
  | insert r hopened =>
    refine records_modify_ne s r fun hself ↦ ?_
    have hsealed := h.sealed (hself ▸ hstore.2)
    rw [hopened] at hsealed
    cases hsealed
  | create identity => exact records_append s _ hstore.1
  | rename | swap => rfl

theorem step_active_le (h : PathInv s) (hs : step localDayMs s e = some t) :
    s.active ≤ t.active := by
  cases step_stores hs with
  | run _ hactive => exact hactive.ge
  | swap store hpath => exact (h.path_some hpath).1
  | insert | rename | create => exact le_rfl

theorem step_archived (hs : step localDayMs s e = some t) (h : store ∈ s.archived) :
    store ∈ t.archived := by
  rw [mem_archived] at h ⊢
  cases step_stores hs with
  | run hstores _ hpath => rwa [hstores, hpath]
  | insert r => simpa only [List.length_modify] using h
  | rename => exact ⟨h.1, by simp⟩
  | create identity =>
    refine ⟨by simpa using Nat.lt_succ_of_lt h.1, fun hself ↦ ?_⟩
    exact h.1.ne (Option.some.inj hself).symm
  | swap => exact h

end QueQiao.Aggregate
