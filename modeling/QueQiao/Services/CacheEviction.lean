import Mathlib.Data.List.Dedup
import Mathlib.Data.List.Perm.Subperm
import QueQiao.Services.ModelsCache

namespace QueQiao.ModelsCache

open Lib.Transition

structure Entry (β : Type) where
  value : β
  storedAt : ℕ
  ttl : ℕ
  deriving DecidableEq, Repr

/-- A call of `insert`: `now` is what its clock reads, and `first` is the key that the iteration
over the map yields first. -/
structure InsertCall (κ β : Type) where
  key : κ
  value : β
  ttl : ℕ
  now : ℕ
  first : κ

section Eviction

variable {κ β : Type} {entries s t : List (κ × Entry β)} {call : InsertCall κ β}

def InsertCall.entry (call : InsertCall κ β) : Entry β := ⟨call.value, call.now, call.ttl⟩

def keys (entries : List (κ × Entry β)) : List κ := entries.map Prod.fst

def Evicts (entries : List (κ × Entry β)) (key : κ) : Prop :=
  capacity ≤ entries.length ∧ key ∉ keys entries

theorem mem_keys {k : κ} : k ∈ keys entries ↔ ∃ entry, (k, entry) ∈ entries := by
  rw [keys, List.mem_map]
  constructor
  · rintro ⟨⟨k, entry⟩, hmem, rfl⟩
    exact ⟨entry, hmem⟩
  · rintro ⟨entry, hmem⟩
    exact ⟨(k, entry), hmem, rfl⟩

/-- The last write of `k` comes before the last one of `k'`. -/
def WrittenBefore (writes : List κ) (k k' : κ) : Prop :=
  ∃ before after, writes = before ++ after ∧ k ∉ after ∧ k' ∈ after

theorem WrittenBefore.asymm {writes : List κ} {k k' : κ} (h : WrittenBefore writes k k') :
    ¬WrittenBefore writes k' k := by
  obtain ⟨before, after, hwrites, hk, hk'⟩ := h
  intro hback
  obtain ⟨before', after', hwrites', hnot, hmem⟩ := hback
  have hsuffix : after <:+ writes := ⟨before, hwrites.symm⟩
  have hsuffix' : after' <:+ writes := ⟨before', hwrites'.symm⟩
  rcases List.suffix_or_suffix_of_suffix hsuffix hsuffix' with hle | hle
  · exact hnot (hle.subset hk')
  · exact hk (hle.subset hmem)

theorem WrittenBefore.ne {writes : List κ} {k k' : κ} (h : WrittenBefore writes k k') :
    k ≠ k' := by
  intro heq
  subst heq
  exact h.asymm h

theorem WrittenBefore.snoc {writes : List κ} {k k' key : κ} (h : WrittenBefore writes k k')
    (hne : k ≠ key) : WrittenBefore (writes ++ [key]) k k' := by
  obtain ⟨before, after, rfl, hk, hk'⟩ := h
  refine ⟨before, after ++ [key], List.append_assoc _ _ _, ?_, List.mem_append_left _ hk'⟩
  intro hmem
  rcases List.mem_append.mp hmem with hmem | hmem
  · exact hk hmem
  · exact hne (List.mem_singleton.mp hmem)

theorem writtenBefore_last {writes : List κ} {k key : κ} (hne : k ≠ key) :
    WrittenBefore (writes ++ [key]) k key :=
  ⟨writes, [key], rfl, mt List.mem_singleton.mp hne, List.mem_singleton_self key⟩

variable [DecidableEq κ]

instance (entries : List (κ × Entry β)) (key : κ) : Decidable (Evicts entries key) :=
  inferInstanceAs (Decidable (_ ∧ _))

/-- The map that an insert leaves, where the iteration over the old one can begin at `first`. -/
def insert (entries : List (κ × Entry β)) (call : InsertCall κ β) :
    Option (List (κ × Entry β)) :=
  if Evicts entries call.key → call.first ∈ keys entries then
    some (insertEntry entries call.key call.entry call.first)
  else none

theorem insert_eq_some (h : insert s call = some t) :
    (Evicts s call.key → call.first ∈ keys s) ∧
      t = insertEntry s call.key call.entry call.first := by
  rw [insert] at h
  split at h
  · rename_i hfirst
    exact ⟨hfirst, (Option.some.inj h).symm⟩
  · cases h

theorem mem_insertEntry {key : κ} {value : Entry β} {victim : κ} {entry : κ × Entry β} :
    entry ∈ insertEntry entries key value victim ↔
      entry = (key, value) ∨
        entry ∈ entries ∧ entry.1 ≠ key ∧ (Evicts entries key → entry.1 ≠ victim) := by
  have hevicts : (capacity ≤ entries.length ∧ key ∉ entries.map Prod.fst) =
      Evicts entries key := rfl
  simp only [insertEntry, hevicts, List.mem_append, List.mem_filter, List.mem_singleton,
    decide_eq_true_eq]
  by_cases h : Evicts entries key
  · rw [if_pos h]
    simp only [List.mem_filter, decide_eq_true_eq, h, forall_const]
    tauto
  · rw [if_neg h]
    simp only [h, IsEmpty.forall_iff]
    tauto

theorem pairwise_insertEntry {writes : List κ} {key : κ} {value : Entry β} {victim : κ}
    (h : (keys entries).Pairwise (WrittenBefore writes)) :
    (keys (insertEntry entries key value victim)).Pairwise
      (WrittenBefore (writes ++ [key])) := by
  have hsublist : ∀ kept : List (κ × Entry β), kept.Sublist entries →
      (keys (kept.filter fun entry ↦ entry.1 ≠ key)).Pairwise (WrittenBefore (writes ++ [key])) := by
    intro kept hkept
    have hbefore : (keys (kept.filter fun entry ↦ entry.1 ≠ key)).Pairwise
        (WrittenBefore writes) := by
      apply List.Pairwise.sublist _ h
      exact (List.filter_sublist.trans hkept).map Prod.fst
    apply hbefore.imp_of_mem
    intro k k' hk _ hwritten
    obtain ⟨entry, hmem⟩ := mem_keys.mp hk
    exact hwritten.snoc (by simpa using (List.mem_filter.mp hmem).2)
  rw [insertEntry, keys, List.map_append, List.pairwise_append]
  refine ⟨?_, List.pairwise_singleton _ _, ?_⟩
  · apply hsublist
    split
    · exact List.filter_sublist
    · exact List.Sublist.refl _
  · intro k hk k' hk'
    rw [List.map_singleton, List.mem_singleton] at hk'
    subst hk'
    obtain ⟨entry, hmem⟩ := mem_keys.mp hk
    exact writtenBefore_last (by simpa using (List.mem_filter.mp hmem).2)

theorem length_insertEntry {key : κ} {value : Entry β} {victim : κ}
    (hsize : entries.length ≤ capacity) (hvictim : Evicts entries key → victim ∈ keys entries) :
    (insertEntry entries key value victim).length ≤ capacity := by
  have hlt : ∀ k ∈ keys entries,
      (entries.filter fun entry ↦ entry.1 ≠ k).length < entries.length := by
    intro k hk
    obtain ⟨entry, hmem⟩ := mem_keys.mp hk
    rw [List.length_filter_lt_length_iff_exists]
    exact ⟨(k, entry), hmem, by simp⟩
  rw [insertEntry, List.length_append, List.length_singleton]
  split
  · rename_i hevicts
    have hle := List.length_filter_le (fun entry : κ × Entry β ↦ decide (entry.1 ≠ key))
      (entries.filter fun entry ↦ entry.1 ≠ victim)
    have hvictim := hlt victim (hvictim hevicts)
    omega
  · rename_i hkeep
    by_cases hkey : key ∈ keys entries
    · have hkey := hlt key hkey
      omega
    · have hroom : entries.length < capacity := by
        by_contra hfull
        exact hkeep ⟨by omega, hkey⟩
      have hle := List.length_filter_le (fun entry : κ × Entry β ↦ decide (entry.1 ≠ key)) entries
      omega

theorem evicted_iff (h : insert s call = some t) {k : κ} (hk : k ∈ keys s) :
    k ∉ keys t ↔ Evicts s call.key ∧ k = call.first := by
  obtain ⟨-, rfl⟩ := insert_eq_some h
  obtain ⟨entry, hmem⟩ := mem_keys.mp hk
  constructor
  · intro hnot
    have hne : k ≠ call.key := by
      intro heq
      exact hnot (mem_keys.mpr ⟨call.entry, mem_insertEntry.mpr (.inl (by rw [heq]))⟩)
    by_contra hkept
    apply hnot
    refine mem_keys.mpr ⟨entry, mem_insertEntry.mpr (.inr ⟨hmem, hne, ?_⟩)⟩
    intro hevicts heq
    exact hkept ⟨hevicts, heq⟩
  · rintro ⟨hevicts, rfl⟩ hthere
    obtain ⟨own, hown⟩ := mem_keys.mp hthere
    rcases mem_insertEntry.mp hown with heq | ⟨-, -, hne⟩
    · exact hevicts.2 ((Prod.mk.inj heq).1 ▸ hk)
    · exact hne hevicts rfl

end Eviction

section Runs

variable {κ β : Type} {tr : List (List (κ × Entry β) × InsertCall κ β)}
  {s t : List (κ × Entry β)} {call : InsertCall κ β}

def writes (tr : List (List (κ × Entry β) × InsertCall κ β)) : List κ := tr.map fun p ↦ p.2.key

theorem writes_snoc (p : List (κ × Entry β) × InsertCall κ β) :
    writes (tr ++ [p]) = writes tr ++ [p.2.key] := by
  rw [writes, List.map_append, List.map_singleton, ← writes]

/-- What an insert that comes after those of `tr` is to make of the map. -/
structure Kept (tr : List (List (κ × Entry β) × InsertCall κ β)) (s : List (κ × Entry β))
    (call : InsertCall κ β) (t : List (κ × Entry β)) : Prop where
  size : t.length ≤ capacity
  present : ∀ entry, (call.key, entry) ∈ t ↔ entry = call.entry
  evicted : ∀ k ∈ keys s, k ∉ keys t → ∀ k' ∈ keys s, k' ≠ k → WrittenBefore (writes tr) k k'

/-- The map lists its keys in the order of their last writes. -/
structure InOrder (tr : List (List (κ × Entry β) × InsertCall κ β)) (s : List (κ × Entry β)) :
    Prop where
  size : s.length ≤ capacity
  written : ∀ k ∈ keys s, k ∈ writes tr
  order : (keys s).Pairwise (WrittenBefore (writes tr))

theorem InOrder.writtenBefore (hs : InOrder tr s) {k : κ} (hhead : (keys s).head? = some k) :
    ∀ k' ∈ keys s, k' ≠ k → WrittenBefore (writes tr) k k' := by
  intro k' hk' hne
  have horder := hs.order
  cases hkeys : keys s with
  | nil =>
    rw [hkeys] at hhead
    cases hhead
  | cons first rest =>
    rw [hkeys] at hhead hk' horder
    obtain rfl := Option.some.inj hhead
    rcases List.mem_cons.mp hk' with heq | hrest
    · exact absurd heq hne
    · exact List.rel_of_pairwise_cons horder hrest

theorem InOrder.head_of_writtenBefore (hs : InOrder tr s) {k : κ} (hk : k ∈ keys s)
    (h : ∀ k' ∈ keys s, k' ≠ k → WrittenBefore (writes tr) k k') :
    (keys s).head? = some k := by
  cases hhead : (keys s).head? with
  | none =>
    rw [List.head?_eq_none_iff.mp hhead] at hk
    cases hk
  | some oldest =>
    by_contra hne
    have hne : oldest ≠ k := by
      intro heq
      exact hne (congrArg some heq)
    have hbefore := h oldest (List.mem_of_head? hhead) hne
    exact hbefore.asymm (hs.writtenBefore hhead k hk hne.symm)

variable [DecidableEq κ]

def Lawful (tr : List (List (κ × Entry β) × InsertCall κ β)) : Prop :=
  ∀ before s call after t, tr = before ++ (s, call) :: after → insert s call = some t →
    Kept before s call t

/-- Wherever an insert evicts, the iteration begins at the entry written longest ago. -/
def EvictsOldest (tr : List (List (κ × Entry β) × InsertCall κ β)) : Prop :=
  ∀ p ∈ tr, Evicts p.1 p.2.key → (keys p.1).head? = some p.2.first

theorem InOrder.step (hs : InOrder tr s) (h : insert s call = some t) :
    InOrder (tr ++ [(s, call)]) t := by
  obtain ⟨hfirst, rfl⟩ := insert_eq_some h
  refine ⟨length_insertEntry hs.size hfirst, ?_, ?_⟩
  · intro k hk
    rw [writes_snoc]
    obtain ⟨entry, hmem⟩ := mem_keys.mp hk
    rcases mem_insertEntry.mp hmem with heq | ⟨hmem, -, -⟩
    · exact List.mem_append_right _ (List.mem_singleton.mpr (Prod.mk.inj heq).1)
    · exact List.mem_append_left _ (hs.written k (mem_keys.mpr ⟨entry, hmem⟩))
  · rw [writes_snoc]
    exact pairwise_insertEntry hs.order

theorem inOrder_run (h : Path insert [] tr s) : InOrder tr s := by
  induction h with
  | nil => exact ⟨Nat.zero_le _, fun _ hk ↦ absurd hk List.not_mem_nil, List.Pairwise.nil⟩
  | snoc _ hs ih => exact ih.step hs

theorem InOrder.kept_iff (hs : InOrder tr s) (h : insert s call = some t) :
    Kept tr s call t ↔ (Evicts s call.key → (keys s).head? = some call.first) := by
  obtain ⟨hfirst, ht⟩ := insert_eq_some h
  constructor
  · intro hkept hevicts
    have hgone : call.first ∉ keys t := (evicted_iff h (hfirst hevicts)).mpr ⟨hevicts, rfl⟩
    exact hs.head_of_writtenBefore (hfirst hevicts)
      (hkept.evicted call.first (hfirst hevicts) hgone)
  · intro hoff
    refine ⟨(hs.step h).size, ?_, ?_⟩
    · intro entry
      rw [ht, mem_insertEntry]
      constructor
      · rintro (heq | ⟨-, hne, -⟩)
        · exact (Prod.mk.inj heq).2
        · exact absurd rfl hne
      · intro heq
        exact .inl (by rw [heq])
    · intro k hk hgone
      obtain ⟨hevicts, rfl⟩ := (evicted_iff h hk).mp hgone
      exact hs.writtenBefore (hoff hevicts)

theorem lawful_of_evictsOldest (h : Path insert [] tr s) (hoff : EvictsOldest tr) :
    Lawful tr := by
  intro before u call after t htr hinsert
  have hu : InOrder before u := inOrder_run (h.before htr).1
  apply (hu.kept_iff hinsert).mpr
  apply hoff (u, call)
  rw [htr]
  exact List.mem_append_right _ List.mem_cons_self

theorem lawful_of_few_keys (h : Path insert [] tr s)
    (hfew : (writes tr).dedup.length ≤ capacity) : Lawful tr := by
  apply lawful_of_evictsOldest h
  intro p hp hevicts
  obtain ⟨before, after, htr⟩ := List.append_of_mem hp
  have hu : InOrder before p.1 := inOrder_run (h.before htr).1
  have hwrites : writes tr = writes before ++ p.2.key :: writes after := by
    rw [htr, writes, List.map_append, List.map_cons]
    rfl
  have hnodup : (p.2.key :: keys p.1).Nodup := by
    rw [List.nodup_cons]
    exact ⟨hevicts.2, hu.order.imp fun hwritten ↦ hwritten.ne⟩
  have hsubset : p.2.key :: keys p.1 ⊆ (writes tr).dedup := by
    intro k hk
    rw [List.mem_dedup, hwrites]
    rcases List.mem_cons.mp hk with rfl | hk
    · exact List.mem_append_right _ List.mem_cons_self
    · exact List.mem_append_left _ (hu.written k hk)
  have hlength := (List.subperm_of_subset hnodup hsubset).length_le
  have hfull := hevicts.1
  rw [List.length_cons, keys, List.length_map] at hlength
  omega

end Runs

/-- An insert of the key `n`, where the iteration over the map would begin at `first`. -/
def plainCall (n first : ℕ) : InsertCall ℕ ℕ := ⟨n, 0, 60, n, first⟩

theorem insert_new {s : List (ℕ × Entry ℕ)} {call : InsertCall ℕ ℕ} (hroom : s.length < capacity)
    (hnew : call.key ∉ keys s) : insert s call = some (s ++ [(call.key, call.entry)]) := by
  have hkeeps : ¬Evicts s call.key := by
    intro hevicts
    have hfull := hevicts.1
    omega
  have hothers : s.filter (fun entry ↦ entry.1 ≠ call.key) = s := by
    apply List.filter_eq_self.mpr
    intro entry hmem
    rw [decide_eq_true_eq]
    intro heq
    exact hnew (heq ▸ mem_keys.mpr ⟨entry.2, hmem⟩)
  rw [insert, if_pos fun hevicts ↦ absurd hevicts hkeeps, insertEntry]
  have hkeeps : ¬(capacity ≤ s.length ∧ call.key ∉ s.map Prod.fst) := hkeeps
  rw [if_neg hkeeps, hothers]

theorem exists_full : ∃ tr s, Path (@insert ℕ ℕ _) [] tr s ∧
    keys s = List.range capacity := by
  have hfill : ∀ n ≤ capacity, ∃ tr s, Path (@insert ℕ ℕ _) [] tr s ∧
      keys s = List.range n := by
    intro n
    induction n with
    | zero =>
      intro _
      exact ⟨[], [], .nil, rfl⟩
    | succ n ih =>
      intro hn
      obtain ⟨tr, s, hpath, hkeys⟩ := ih (by omega)
      have hroom : s.length < capacity := by
        have hlength := congrArg List.length hkeys
        rw [keys, List.length_map, List.length_range] at hlength
        omega
      have hnew : n ∉ keys s := by
        rw [hkeys]
        exact List.not_mem_range_self
      refine ⟨_, _, hpath.snoc (@insert_new s (plainCall n 0) hroom hnew), ?_⟩
      rw [keys, List.map_append, ← keys, hkeys, List.range_succ]
      rfl
  exact hfill capacity (Nat.le_refl _)

theorem exists_evicting {first : ℕ} (hfirst : first < capacity) :
    ∃ tr s t, Path (@insert ℕ ℕ _) [] tr s ∧ keys s = List.range capacity ∧
      insert s (plainCall capacity first) = some t ∧ Evicts s capacity := by
  obtain ⟨tr, s, hpath, hkeys⟩ := exists_full
  have hfull : s.length = capacity := by
    have hlength := congrArg List.length hkeys
    rwa [keys, List.length_map, List.length_range] at hlength
  have hthere : first ∈ keys s := by
    rw [hkeys]
    exact List.mem_range.mpr hfirst
  refine ⟨tr, s, _, hpath, hkeys, if_pos fun _ ↦ hthere, Nat.le_of_eq hfull.symm, ?_⟩
  rw [hkeys]
  exact List.not_mem_range_self

theorem head_range_capacity : (List.range capacity).head? = some 0 := by
  rw [capacity, List.range_succ_eq_map, List.head?_cons]

/-- The cache keeps its law in a run exactly if, at each insert that evicts, the iteration over the
map happens to begin at the entry written longest ago. -/
theorem lawful_iff_evictsOldest {κ β : Type} [DecidableEq κ]
    {tr : List (List (κ × Entry β) × InsertCall κ β)} {s : List (κ × Entry β)}
    (h : Path insert [] tr s) : Lawful tr ↔ EvictsOldest tr := by
  constructor
  · intro hlawful p hp
    obtain ⟨before, after, htr⟩ := List.append_of_mem hp
    obtain ⟨hbefore, t, ht⟩ := h.before htr
    exact ((inOrder_run hbefore).kept_iff ht).mp (hlawful before p.1 p.2 after t htr ht)
  · exact lawful_of_evictsOldest h

theorem lawful_iff_evictsOldest_full :
    ∃ tr s, Path (@insert ℕ ℕ _) [] tr s ∧ capacity ∈ writes tr ∧ 0 ∉ keys s ∧
      (Lawful tr ↔ EvictsOldest tr) := by
  obtain ⟨tr, s, t, hpath, hkeys, hinsert, hevicts⟩ :=
    @exists_evicting 0 (by decide)
  have hzero : 0 ∈ keys s := by
    rw [hkeys]
    exact List.mem_range.mpr (by decide)
  refine ⟨_, t, hpath.snoc hinsert, ?_, (evicted_iff hinsert hzero).mpr ⟨hevicts, rfl⟩,
    lawful_iff_evictsOldest (hpath.snoc hinsert)⟩
  rw [writes_snoc]
  exact List.mem_append_right _ (List.mem_singleton_self _)

theorem evicts_newer_entry : ∃ tr s, Path (@insert ℕ ℕ _) [] tr s ∧ ¬Lawful tr := by
  obtain ⟨tr, s, t, hpath, hkeys, hinsert, hevicts⟩ :=
    @exists_evicting 1 (by decide)
  refine ⟨_, t, hpath.snoc hinsert, ?_⟩
  intro hlawful
  have hkept : Kept tr s (plainCall capacity 1) t := hlawful tr s _ [] t rfl hinsert
  have hhead := ((inOrder_run hpath).kept_iff hinsert).mp hkept hevicts
  rw [hkeys, head_range_capacity] at hhead
  cases hhead

end QueQiao.ModelsCache
