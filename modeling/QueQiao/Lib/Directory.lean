import Mathlib.Combinatorics.Pigeonhole
import Mathlib.Data.List.AList

namespace QueQiao.Lib.Directory

variable {α κ : Type}

abbrev Files (α : Type) := AList fun _ : String ↦ α

namespace Files

def get (fs : Files α) (name : String) : Option α := fs.lookup name

def put (fs : Files α) (name : String) (x : α) : Files α := fs.insert name x

def remove (fs : Files α) (name : String) : Files α := fs.erase name

/-- A file under the new name is replaced; what is not there is not moved. -/
def move (fs : Files α) (old new : String) : Files α :=
  match fs.get old with
  | some x => (fs.remove old).put new x
  | none => fs

variable {fs : Files α} {name old new : String} {x : α}

theorem get_put (n : String) : (fs.put name x).get n = if n = name then some x else fs.get n := by
  by_cases h : n = name
  · rw [if_pos h, h]
    exact AList.lookup_insert fs
  · rw [if_neg h]
    exact AList.lookup_insert_ne h

theorem get_remove (n : String) : (fs.remove name).get n = if n = name then none else fs.get n := by
  by_cases h : n = name
  · rw [if_pos h, h]
    exact AList.lookup_erase name fs
  · rw [if_neg h]
    exact AList.lookup_erase_ne h

theorem get_move (h : fs.get old = some x) (n : String) :
    (fs.move old new).get n =
      if n = new then some x else if n = old then none else fs.get n := by
  rw [move, h]
  simp only [get_put, get_remove]

theorem get_eq_none : fs.get name = none ↔ name ∉ fs := AList.lookup_eq_none

end Files

/-- If each of finitely many names is in the way of at most one number, one of the first numbers
is free. -/
theorem exists_free {keys : List κ} {blocks : ℕ → κ → Prop}
    (h : ∀ k ∈ keys, ∀ i j, blocks i k → blocks j k → i = j) :
    ∃ i, i < keys.length + 1 ∧ ∀ k ∈ keys, ¬blocks i k := by
  classical
  by_contra! hall
  choose key hmem hblocks using fun i : Fin (keys.length + 1) ↦ hall i i.isLt
  have hcard : keys.toFinset.card < (Finset.univ : Finset (Fin (keys.length + 1))).card := by
    rw [Finset.card_univ, Fintype.card_fin]
    exact Nat.lt_succ_of_le keys.toFinset_card_le
  obtain ⟨i, -, j, -, hne, heq⟩ := Finset.exists_ne_map_eq_of_card_lt_of_maps_to hcard
    (f := key) fun i _ ↦ List.mem_toFinset.mpr (hmem i)
  exact hne (Fin.ext (h _ (hmem i) i j (hblocks i) (heq ▸ hblocks j)))

end QueQiao.Lib.Directory
