import Mathlib.Data.Rat.Defs
import Mathlib.Data.List.Basic

namespace QueQiao

/-- `serde_json::Value`. The fields of an object stand in the order of their keys. -/
inductive Json
  | null
  | bool (b : Bool)
  | num (n : ℚ)
  | str (s : String)
  | arr (items : List Json)
  | obj (fields : List (String × Json))

namespace Json

abbrev Fields := List (String × Json)

def Fields.get (fields : Fields) (key : String) : Option Json := fields.lookup key

def Fields.remove (key : String) (fields : Fields) : Fields := fields.filter (·.1 ≠ key)

def Fields.insert (key : String) (value : Json) : Fields → Fields
  | [] => [(key, value)]
  | (k, v) :: rest =>
    if key = k then (key, value) :: rest
    else if key < k then (key, value) :: (k, v) :: rest
    else (k, v) :: Fields.insert key value rest

def get (v : Json) (key : String) : Option Json :=
  match v with
  | .obj fields => fields.lookup key
  | _ => none

def asStr : Json → Option String
  | .str s => some s
  | _ => none

def asU64 : Json → Option ℕ
  | .num n => if n.den = 1 ∧ 0 ≤ n ∧ n < 2 ^ 64 then some n.num.toNat else none
  | _ => none

/-- Change the value under a key in place, as through `get_mut`. -/
def modify (key : String) (f : Json → Json) : Json → Json
  | .obj fields => .obj (fields.map fun kv ↦ if kv.1 = key then (kv.1, f kv.2) else kv)
  | v => v

def modifyItems (f : Json → Json) : Json → Json
  | .arr items => .arr (items.map f)
  | v => v

/-- A token of a JSON pointer: a key, and the index that it is for an array. -/
abbrev Token := String × Option ℕ

def pointer : List Token → Json → Option Json
  | [], v => some v
  | token :: tokens, .obj fields =>
    match Fields.get fields token.1 with
    | some v => pointer tokens v
    | none => none
  | (_, some i) :: tokens, .arr items =>
    match items[i]? with
    | some v => pointer tokens v
    | none => none
  | _ :: _, _ => none

/-- Change the value a pointer leads to, as through `pointer_mut`. -/
def pointerModify (f : Json → Json) : List Token → Json → Json
  | [], v => f v
  | token :: tokens, .obj fields =>
    .obj (fields.map fun kv ↦
      if kv.1 = token.1 then (kv.1, pointerModify f tokens kv.2) else kv)
  | (_, some i) :: tokens, .arr items => .arr (items.modify i (pointerModify f tokens))
  | _ :: _, v => v

theorem Fields.get_insert_self (key : String) (value : Json) (fields : Fields) :
    (Fields.insert key value fields).get key = some value := by
  induction fields with
  | nil => simp [Fields.insert, Fields.get]
  | cons kv rest ih =>
    rw [Fields.insert]
    split
    · simp [Fields.get]
    · rename_i hk
      split
      · simp [Fields.get]
      · simpa only [Fields.get, List.lookup_cons, beq_eq_false_iff_ne.mpr hk] using ih

theorem Fields.get_insert_ne {k key : String} (h : k ≠ key) (value : Json) (fields : Fields) :
    (Fields.insert key value fields).get k = fields.get k := by
  have hk : (k == key) = false := beq_eq_false_iff_ne.mpr h
  induction fields with
  | nil => simp [Fields.insert, Fields.get, h]
  | cons kv rest ih =>
    obtain ⟨k', v⟩ := kv
    rw [Fields.insert]
    split
    · rename_i hkey
      subst hkey
      simp only [Fields.get, List.lookup_cons, hk]
    · split
      · simp only [Fields.get, List.lookup_cons, hk]
      · rw [Fields.get, List.lookup_cons, ← Fields.get, ih]
        rfl

theorem Fields.get_remove_self (key : String) (fields : Fields) :
    (Fields.remove key fields).get key = none := by
  rw [Fields.get, List.lookup_eq_none_iff]
  intro kv hkv
  exact bne_iff_ne.mpr (Ne.symm (of_decide_eq_true (List.mem_filter.mp hkv).2))

theorem Fields.get_remove_ne {k key : String} (h : k ≠ key) (fields : Fields) :
    (Fields.remove key fields).get k = fields.get k := by
  induction fields with
  | nil => rfl
  | cons kv rest ih =>
    obtain ⟨k', v⟩ := kv
    by_cases hkey : k' = key
    · have hk : (k == k') = false := beq_eq_false_iff_ne.mpr (hkey ▸ h)
      rw [Fields.remove, List.filter_cons_of_neg (by simp [hkey]), Fields.get, Fields.get,
        List.lookup_cons, hk]
      exact ih
    · rw [Fields.remove, List.filter_cons_of_pos (by simp [hkey]), Fields.get, Fields.get,
        List.lookup_cons, List.lookup_cons]
      cases k == k'
      · exact ih
      · rfl

theorem Fields.get_map_modify (key : String) (f : Json → Json) (fields : Fields) (k : String) :
    Fields.get (fields.map fun kv ↦ if kv.1 = key then (kv.1, f kv.2) else kv) k =
      if k = key then (Fields.get fields k).map f else Fields.get fields k := by
  induction fields with
  | nil => simp [Fields.get]
  | cons kv rest ih =>
    obtain ⟨k', v⟩ := kv
    rw [Fields.get, Fields.get, List.map_cons, List.lookup_cons]
    by_cases hk : k = k'
    · subst hk
      by_cases hkey : k = key <;> simp [hkey]
    · have hne : (k == k') = false := beq_eq_false_iff_ne.mpr hk
      have hne' : (k == (if k' = key then (k', f v) else (k', v)).1) = false := by
        split <;> exact hne
      rw [hne', List.lookup_cons, hne]
      exact ih

theorem pointer_cons (token : Token) (tokens : List Token) (v : Json) :
    pointer (token :: tokens) v = (pointer [token] v).bind (pointer tokens) := by
  cases v with
  | obj fields =>
    simp only [pointer]
    cases Fields.get fields token.1 <;> rfl
  | arr items =>
    obtain ⟨key, index⟩ := token
    cases index with
    | none => rfl
    | some i =>
      simp only [pointer]
      cases items[i]? <;> rfl
  | null | bool | num | str => rfl

theorem pointer_pointerModify_cons (f : Json → Json) (token : Token) (tokens : List Token)
    (v : Json) :
    pointer [token] (pointerModify f (token :: tokens) v) =
      (pointer [token] v).map (pointerModify f tokens) := by
  cases v with
  | obj fields =>
    simp only [pointer, pointerModify, Fields.get_map_modify, ↓reduceIte]
    cases Fields.get fields token.1 <;> rfl
  | arr items =>
    obtain ⟨key, index⟩ := token
    cases index with
    | none => rfl
    | some i =>
      simp only [pointer, pointerModify, List.getElem?_modify, ↓reduceIte]
      cases items[i]? <;> rfl
  | null | bool | num | str => rfl

theorem pointer_append (tokens tokens' : List Token) (v : Json) :
    pointer (tokens ++ tokens') v = (pointer tokens v).bind (pointer tokens') := by
  induction tokens generalizing v with
  | nil => rfl
  | cons token tokens ih =>
    rw [List.cons_append, pointer_cons, pointer_cons token tokens]
    cases pointer [token] v with
    | none => rfl
    | some u => exact ih u

theorem pointer_pointerModify_append (f : Json → Json) (tokens tokens' : List Token) (v : Json) :
    pointer tokens (pointerModify f (tokens ++ tokens') v) =
      (pointer tokens v).map (pointerModify f tokens') := by
  induction tokens generalizing v with
  | nil => rfl
  | cons token tokens ih =>
    rw [List.cons_append, pointer_cons, pointer_pointerModify_cons, pointer_cons token tokens]
    cases pointer [token] v with
    | none => rfl
    | some u => exact ih u

theorem pointer_pointerModify {tokens : List Token} {v w : Json} (f : Json → Json)
    (h : pointer tokens v = some w) : pointer tokens (pointerModify f tokens v) = some (f w) := by
  have happ := pointer_pointerModify_append f tokens [] v
  rw [List.append_nil, h] at happ
  exact happ

theorem pointer_pointerModify_ne {key key' : String} (h : key ≠ key') (f : Json → Json)
    (tokens rest rest' : List Token) (v : Json) :
    pointer (tokens ++ (key, none) :: rest) (pointerModify f (tokens ++ (key', none) :: rest') v) =
      pointer (tokens ++ (key, none) :: rest) v := by
  have hlast : ∀ u, pointer ((key, none) :: rest) (pointerModify f ((key', none) :: rest') u) =
      pointer ((key, none) :: rest) u := by
    intro u
    cases u with
    | obj fields => simp only [pointer, pointerModify, Fields.get_map_modify, h, ↓reduceIte]
    | arr | null | bool | num | str => rfl
  rw [pointer_append, pointer_append, pointer_pointerModify_append]
  cases pointer tokens v with
  | none => rfl
  | some u => exact hlast u

end Json

end QueQiao
