import Mathlib.Data.List.Nodup
import Mathlib.Data.List.Perm.Subperm

/-! Maps whose entries are good for a time. -/

namespace QueQiao.Lib.TimedCache

variable {κ V : Type*} [DecidableEq κ]

structure Entry (V : Type*) where
  created : ℕ
  ttl : ℕ
  value : V

def Entry.live (now : ℕ) (e : Entry V) : Bool := decide (now - e.created < e.ttl)

theorem Entry.live_anti {now later : ℕ} (h : now ≤ later) {e : Entry V} (he : e.live later = true) :
    e.live now = true := by
  have hlt := of_decide_eq_true he
  exact decide_eq_true (by omega)

def last (writes : List (κ × Entry V)) (key : κ) : Option (Entry V) :=
  (writes.find? (·.1 = key)).map Prod.snd

theorem last_cons (key : κ) (e : Entry V) (writes : List (κ × Entry V)) (k : κ) :
    last ((key, e) :: writes) k = if key = k then some e else last writes k := by
  rw [last]
  split
  · rename_i h
    rw [List.find?_cons_of_pos (by simpa using h)]
    rfl
  · rename_i h
    rw [List.find?_cons_of_neg (by simpa using h), last]

theorem mem_of_last {writes : List (κ × Entry V)} {key : κ} {e : Entry V}
    (h : last writes key = some e) : (key, e) ∈ writes := by
  obtain ⟨⟨k, e'⟩, hfind, rfl⟩ := Option.map_eq_some_iff.mp h
  obtain rfl : k = key := by simpa using List.find?_some hfind
  exact List.mem_of_find?_eq_some hfind

structure Cache (κ V : Type*) where
  entries : List (κ × Entry V)
  nodup : (entries.map Prod.fst).Nodup

namespace Cache

omit [DecidableEq κ] in
theorem nodup_filter (c : Cache κ V) (p : κ × Entry V → Bool) :
    ((c.entries.filter p).map Prod.fst).Nodup :=
  c.nodup.sublist (List.filter_sublist.map Prod.fst)

def empty : Cache κ V := ⟨[], List.nodup_nil⟩

def size (c : Cache κ V) : ℕ := c.entries.length

def contains (c : Cache κ V) (key : κ) : Bool := decide (key ∈ c.entries.map Prod.fst)

def entry (c : Cache κ V) (key : κ) : Option (Entry V) := last c.entries key

def get (c : Cache κ V) (now : ℕ) (key : κ) : Option V :=
  ((c.entry key).filter (·.live now)).map Entry.value

def filter (c : Cache κ V) (p : κ × Entry V → Bool) : Cache κ V :=
    ⟨c.entries.filter p, c.nodup_filter p⟩

def remove (c : Cache κ V) (key : κ) : Cache κ V := c.filter fun row ↦ row.1 ≠ key

def retain (c : Cache κ V) (now : ℕ) : Cache κ V := c.filter fun row ↦ row.2.live now

def insert (c : Cache κ V) (key : κ) (e : Entry V) : Cache κ V where
  entries := (key, e) :: (c.remove key).entries
  nodup := by
    refine List.nodup_cons.mpr ⟨fun h ↦ ?_, (c.remove key).nodup⟩
    obtain ⟨row, hrow, hkey⟩ := List.mem_map.mp h
    exact of_decide_eq_true (List.mem_filter.mp hrow).2 hkey

/-- Old entries go, all of them when the cache is full, before the new one is written. With `spare`
a full cache is kept where the new entry takes the place of another. -/
def put (cap : ℕ) (spare : Bool) (now : ℕ) (c : Cache κ V) (key : κ) (e : Entry V) : Cache κ V :=
  let c := c.retain now
  (if cap ≤ c.size ∧ ¬(spare ∧ c.contains key) then empty else c).insert key e

end Cache

open Cache

variable {c : Cache κ V} {writes : List (κ × Entry V)} {cap now : ℕ} {spare : Bool} {key : κ}
  {e : Entry V}

omit [DecidableEq κ] in
theorem eq_of_mem_of_nodup {rows : List (κ × Entry V)} (h : (rows.map Prod.fst).Nodup) {k : κ}
    {e₁ e₂ : Entry V} (h₁ : (k, e₁) ∈ rows) (h₂ : (k, e₂) ∈ rows) : e₁ = e₂ :=
  congrArg Prod.snd (List.inj_on_of_nodup_map h h₁ h₂ rfl)

theorem entry_eq_some_iff : c.entry key = some e ↔ (key, e) ∈ c.entries := by
  refine ⟨mem_of_last, fun h ↦ ?_⟩
  rw [Cache.entry, last]
  have hsome : (c.entries.find? (·.1 = key)).isSome :=
    List.find?_isSome.mpr ⟨_, h, decide_eq_true rfl⟩
  obtain ⟨⟨k, e'⟩, hfind⟩ := Option.isSome_iff_exists.mp hsome
  obtain rfl : k = key := by simpa using List.find?_some hfind
  rw [hfind, Option.map_some, eq_of_mem_of_nodup c.nodup h (List.mem_of_find?_eq_some hfind)]

/-- What the cache has of a key is what was written for it last. -/
def Reflects (writes : List (κ × Entry V)) (c : Cache κ V) : Prop :=
  ∀ key e, (key, e) ∈ c.entries → last writes key = some e

/-- What was written last for a key and is still good is in the cache. -/
def Holds (now : ℕ) (writes : List (κ × Entry V)) (c : Cache κ V) : Prop :=
  ∀ key e, last writes key = some e → e.live now = true → (key, e) ∈ c.entries

theorem reflects_empty : Reflects writes (empty : Cache κ V) := fun _ _ h ↦ nomatch h

theorem Reflects.filter (h : Reflects writes c) (p : κ × Entry V → Bool) :
    Reflects writes (c.filter p) :=
  fun key e he ↦ h key e (List.mem_filter.mp he).1

theorem Reflects.insert (h : Reflects writes c) (key : κ) (e : Entry V) :
    Reflects ((key, e) :: writes) (c.insert key e) := by
  intro k e' hmem
  rw [last_cons]
  rcases List.mem_cons.mp hmem with heq | hmem
  · obtain ⟨rfl, rfl⟩ := Prod.ext_iff.mp heq
    exact if_pos rfl
  · obtain ⟨hmem, hne⟩ := List.mem_filter.mp hmem
    rw [if_neg fun hk ↦ of_decide_eq_true hne hk.symm]
    exact h k e' hmem

theorem Reflects.put (h : Reflects writes c) (cap : ℕ) (spare : Bool) (now : ℕ) (key : κ)
    (e : Entry V) : Reflects ((key, e) :: writes) (c.put cap spare now key e) := by
  rw [Cache.put]
  split
  · exact reflects_empty.insert key e
  · exact (h.filter _).insert key e

theorem Holds.mono (h : Holds now writes c) {later : ℕ} (hle : now ≤ later) :
    Holds later writes c :=
  fun key e hlast hlive ↦ h key e hlast (Entry.live_anti hle hlive)

theorem Holds.retain (h : Holds now writes c) : Holds now writes (c.retain now) :=
  fun key e hlast hlive ↦ List.mem_filter.mpr ⟨h key e hlast hlive, hlive⟩

theorem Holds.insert (h : Holds now writes c) (key : κ) (e : Entry V) :
    Holds now ((key, e) :: writes) (c.insert key e) := by
  intro k e' hlast hlive
  rw [last_cons] at hlast
  split at hlast
  · rename_i hk
    obtain rfl := Option.some.inj hlast
    rw [← hk]
    exact List.mem_cons_self
  · rename_i hk
    refine List.mem_cons_of_mem _ (List.mem_filter.mpr ⟨h k e' hlast hlive, ?_⟩)
    exact decide_eq_true fun hk' ↦ hk hk'.symm

theorem Reflects.size_retain_le (h : Reflects writes c) :
    (c.retain now).size ≤ (writes.filter fun row ↦ row.2.live now).length := by
  have hnodup : (c.retain now).entries.Nodup := List.Nodup.of_map _ (c.retain now).nodup
  refine (List.subperm_of_subset hnodup fun row hrow ↦ ?_).length_le
  obtain ⟨hmem, hlive⟩ := List.mem_filter.mp hrow
  exact List.mem_filter.mpr ⟨mem_of_last (h row.1 row.2 hmem), hlive⟩

theorem Holds.put (h : Holds now writes c) (hr : Reflects writes c)
    (hroom : (writes.filter fun row ↦ row.2.live now).length < cap) (spare : Bool) (key : κ)
    (e : Entry V) : Holds now ((key, e) :: writes) (c.put cap spare now key e) := by
  rw [Cache.put, if_neg fun hfull ↦
    absurd hfull.1 (Nat.not_le.mpr (Nat.lt_of_le_of_lt hr.size_retain_le hroom))]
  exact h.retain.insert key e

theorem length_remove_lt (hkey : c.contains key = true) : (c.remove key).size < c.size := by
  obtain ⟨row, hrow, rfl⟩ := List.mem_map.mp (of_decide_eq_true hkey)
  refine List.length_filter_lt_length_iff_exists.mpr ⟨row, hrow, ?_⟩
  simp

theorem size_put_le (hc : c.size ≤ cap) (hcap : 0 < cap) (spare : Bool) (now : ℕ) (key : κ)
    (e : Entry V) : (c.put cap spare now key e).size ≤ cap := by
  have hretain : (c.retain now).size ≤ cap := Nat.le_trans (List.length_filter_le ..) hc
  rw [Cache.put]
  split
  · exact hcap
  · rename_i hfull
    change ((c.retain now).remove key).size + 1 ≤ cap
    by_cases hkey : (c.retain now).contains key = true
    · exact Nat.succ_le_of_lt (Nat.lt_of_lt_of_le (length_remove_lt hkey) hretain)
    · have hlt : (c.retain now).size < cap :=
        Nat.lt_of_not_le fun hle ↦ hfull ⟨hle, fun hspare ↦ hkey hspare.2⟩
      exact Nat.succ_le_of_lt (Nat.lt_of_le_of_lt (List.length_filter_le ..) hlt)

theorem get_eq_some_iff {v : V} : c.get now key = some v ↔
    ∃ e, (key, e) ∈ c.entries ∧ e.live now = true ∧ e.value = v := by
  rw [Cache.get]
  simp only [Option.map_eq_some_iff, Option.filter_eq_some_iff, entry_eq_some_iff, and_assoc]

theorem Reflects.get_eq_some (h : Reflects writes c) {v : V} (hv : c.get now key = some v) :
    ∃ e, last writes key = some e ∧ e.live now = true ∧ e.value = v := by
  obtain ⟨e, hmem, hlive, hvalue⟩ := get_eq_some_iff.mp hv
  exact ⟨e, h key e hmem, hlive, hvalue⟩

theorem Reflects.get_eq (h : Reflects writes c) (hh : Holds now writes c) (key : κ) :
    c.get now key = ((last writes key).filter (·.live now)).map Entry.value := by
  refine Option.ext fun v ↦ ?_
  rw [get_eq_some_iff]
  simp only [Option.map_eq_some_iff, Option.filter_eq_some_iff, and_assoc]
  refine exists_congr fun e ↦ ⟨fun ⟨hmem, hrest⟩ ↦ ⟨h key e hmem, hrest⟩, fun ⟨hlast, hrest⟩ ↦ ?_⟩
  exact ⟨hh key e hlast hrest.1, hrest⟩

end QueQiao.Lib.TimedCache
