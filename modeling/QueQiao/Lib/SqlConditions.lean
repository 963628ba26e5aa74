import Mathlib.Algebra.Order.Ring.Int
import Mathlib.Data.List.Count
import Mathlib.Data.List.Infix
import Mathlib.Data.String.Basic

/-! Conditions of a `WHERE` clause that leave values to parameters: their text, and what they say
of a row in the logic of three values. A parameter stands for the next value that is bound. -/

namespace QueQiao.Lib.SqlConditions

inductive Value
  | null
  | int (n : ℤ)
  | text (s : List Char)
  deriving DecidableEq, Repr

inductive Op
  | lt
  | le
  | ge
  | eq
  deriving DecidableEq, Repr

inductive Cond (κ : Type)
  | always
  | cmp (col : κ) (nocase : Bool) (op : Op)
  | atLeast (col : κ) (n : ℕ)
  | like (col : κ)
  | instrLower (col : κ)
  | search (col : κ)
  | pair (col col' : κ) (op : Op)
  | isOne
  | and (a b : Cond κ)
  | or (a b : Cond κ)

def and3 : Option Bool → Option Bool → Option Bool
  | some false, _ | _, some false => some false
  | some true, some true => some true
  | _, _ => none

def or3 : Option Bool → Option Bool → Option Bool
  | some true, _ | _, some true => some true
  | some false, some false => some false
  | _, _ => none

theorem and3_eq_true {a b : Option Bool} :
    and3 a b = some true ↔ a = some true ∧ b = some true := by
  rcases a with - | - | - <;> rcases b with - | - | - <;> decide

theorem or3_eq_true {a b : Option Bool} :
    or3 a b = some true ↔ a = some true ∨ b = some true := by
  rcases a with - | - | - <;> rcases b with - | - | - <;> decide

structure Functions where
  fold : List Char → List Char
  lower : List Char → List Char
  like : List Char → List Char → Bool
  search : List Char → List Char → Bool

def Op.holds (less greater : Bool) : Op → Bool
  | lt => less
  | le => !greater
  | ge => !less
  | eq => !less && !greater

/-- Integers come before texts, and a `NULL` is not compared. -/
def compareValues (fold : List Char → List Char) (op : Op) : Value → Value → Option Bool
  | .null, _ | _, .null => none
  | .int n, .int m => some (op.holds (n < m) (m < n))
  | .text s, .text t => some (op.holds (fold s < fold t) (fold t < fold s))
  | .int _, .text _ => some (op.holds true false)
  | .text _, .int _ => some (op.holds false true)

def comparePairs (op : Op) (a b x y : Value) : Option Bool :=
  match op with
  | .eq => and3 (compareValues id .eq a x) (compareValues id .eq b y)
  | _ => or3 (compareValues id .lt a x) (and3 (compareValues id .eq a x) (compareValues id op b y))

def onTexts (f : List Char → List Char → Bool) : Value → Value → Option Bool
  | .text s, .text t => some (f s t)
  | _, _ => none

namespace Cond

variable {κ : Type}

def holes : Cond κ → ℕ
  | always | atLeast _ _ => 0
  | cmp _ _ _ | like _ | instrLower _ | search _ | isOne => 1
  | pair _ _ _ => 2
  | and a b | or a b => a.holes + b.holes

def eval (f : Functions) (row : κ → Value) : Cond κ → List Value → Option Bool
  | always, _ => some true
  | cmp col nocase op, binds =>
    compareValues (if nocase then f.fold else id) op (row col) (binds.getD 0 .null)
  | atLeast col n, _ => compareValues id .ge (row col) (.int n)
  | like col, binds => onTexts (fun s pattern ↦ f.like pattern s) (row col) (binds.getD 0 .null)
  | instrLower col, binds =>
    onTexts (fun s t ↦ decide (t <:+: f.lower s)) (row col) (binds.getD 0 .null)
  | search col, binds => onTexts f.search (row col) (binds.getD 0 .null)
  | pair col col' op, binds =>
    comparePairs op (row col) (row col') (binds.getD 0 .null) (binds.getD 1 .null)
  | isOne, binds => compareValues id .eq (binds.getD 0 .null) (.int 1)
  | and a b, binds => and3 (a.eval f row (binds.take a.holes)) (b.eval f row (binds.drop a.holes))
  | or a b, binds => or3 (a.eval f row (binds.take a.holes)) (b.eval f row (binds.drop a.holes))

end Cond

def questionMarks (s : String) : ℕ := s.toList.count '?'

theorem questionMarks_append (s t : String) :
    questionMarks (s ++ t) = questionMarks s + questionMarks t := by
  rw [questionMarks, String.toList_append, List.count_append]
  rfl

theorem questionMarks_eq_zero {s : String} (h : '?' ∉ s.toList) : questionMarks s = 0 :=
  List.count_eq_zero.mpr h

structure Names (κ : Type) where
  col : κ → String
  search : String
  col_plain : ∀ c, '?' ∉ (col c).toList
  search_plain : '?' ∉ search.toList

def Op.text : Op → String
  | lt => "<"
  | le => "<="
  | ge => ">="
  | eq => "="

theorem questionMarks_op (op : Op) : questionMarks op.text = 0 := by
  cases op <;> decide

namespace Cond

variable {κ : Type} (names : Names κ)

/-- The text of a condition; one that is `inner` is put in brackets where it would fall apart. -/
def text (inner : Bool) : Cond κ → String
  | always => "1=1"
  | cmp col nocase op =>
    names.col col ++ (if nocase then " COLLATE NOCASE " else " ") ++ op.text ++ " ?"
  | atLeast col n => names.col col ++ " >= " ++ toString n
  | like col => names.col col ++ " LIKE ? ESCAPE '\\'"
  | instrLower col => "instr(lower(" ++ names.col col ++ "), ?) > 0"
  | search col => names.search ++ "(" ++ names.col col ++ ", ?)"
  | pair col col' op =>
    "(" ++ names.col col ++ ", " ++ names.col col' ++ ") " ++ op.text ++ " (?, ?)"
  | isOne => "? = 1"
  | and a b =>
    (if inner then "(" else "") ++ a.text false ++ " AND " ++ b.text true ++
      (if inner then ")" else "")
  | or a b => "(" ++ a.text true ++ " OR " ++ b.text true ++ ")"

theorem questionMarks_text (c : Cond κ) (inner : Bool) :
    questionMarks (c.text names inner) = c.holes := by
  have hcol : ∀ col, questionMarks (names.col col) = 0 := fun col ↦
    questionMarks_eq_zero (names.col_plain col)
  have hsearch : questionMarks names.search = 0 := questionMarks_eq_zero names.search_plain
  induction c generalizing inner with
  | always =>
    rw [text]
    rfl
  | cmp col nocase op =>
    simp only [text, questionMarks_append, hcol, questionMarks_op]
    cases nocase <;> rfl
  | atLeast col n =>
    have hdigits : questionMarks (toString n) = 0 := questionMarks_eq_zero fun hmem ↦ by
      rw [Nat.toString_eq_repr, Nat.toList_repr] at hmem
      exact absurd (Nat.isDigit_of_mem_toDigits (by decide) (by decide) hmem) (by decide)
    simp only [text, questionMarks_append, hcol, hdigits]
    rfl
  | like col =>
    simp only [text, questionMarks_append, hcol]
    rfl
  | instrLower col =>
    simp only [text, questionMarks_append, hcol]
    rfl
  | search col =>
    simp only [text, questionMarks_append, hcol, hsearch]
    rfl
  | pair col col' op =>
    simp only [text, questionMarks_append, hcol, questionMarks_op]
    rfl
  | isOne =>
    rw [text]
    rfl
  | and a b iha ihb =>
    simp only [text, questionMarks_append, iha, ihb, holes]
    cases inner <;> simp [questionMarks]
  | or a b iha ihb =>
    simp only [text, questionMarks_append, iha, ihb, holes]
    simp [questionMarks]

end Cond

structure Clause (κ : Type) where
  cond : Cond κ
  binds : List Value
  fits : cond.holes = binds.length

namespace Clause

variable {κ : Type}

def always : Clause κ := ⟨.always, [], rfl⟩

def and (a b : Clause κ) : Clause κ where
  cond := a.cond.and b.cond
  binds := a.binds ++ b.binds
  fits := by rw [Cond.holes, List.length_append, a.fits, b.fits]

def or (a b : Clause κ) : Clause κ where
  cond := a.cond.or b.cond
  binds := a.binds ++ b.binds
  fits := by rw [Cond.holes, List.length_append, a.fits, b.fits]

def all (c : Clause κ) (others : List (Clause κ)) : Clause κ := others.foldl and c

/-- A row is kept by a `WHERE` that is true of it, and by no other. -/
def Keeps (f : Functions) (row : κ → Value) (c : Clause κ) : Prop :=
  c.cond.eval f row c.binds = some true

instance (f : Functions) (row : κ → Value) (c : Clause κ) : Decidable (c.Keeps f row) :=
  inferInstanceAs (Decidable (c.cond.eval f row c.binds = some true))

variable {f : Functions} {row : κ → Value} {a b c : Clause κ}

theorem keeps_always : (always : Clause κ).Keeps f row := rfl

theorem keeps_and : (a.and b).Keeps f row ↔ a.Keeps f row ∧ b.Keeps f row := by
  rw [Keeps, and, Cond.eval, a.fits, List.take_left, List.drop_left]
  exact and3_eq_true

theorem keeps_or : (a.or b).Keeps f row ↔ a.Keeps f row ∨ b.Keeps f row := by
  rw [Keeps, or, Cond.eval, a.fits, List.take_left, List.drop_left]
  exact or3_eq_true

theorem keeps_all {others : List (Clause κ)} :
    (c.all others).Keeps f row ↔ c.Keeps f row ∧ ∀ other ∈ others, other.Keeps f row := by
  induction others generalizing c with
  | nil => simp [all]
  | cons other others ih =>
    have hfold : c.all (other :: others) = (c.and other).all others := rfl
    rw [hfold, ih, keeps_and, List.forall_mem_cons, and_assoc]

theorem questionMarks_text (names : Names κ) (c : Clause κ) (inner : Bool) :
    questionMarks (c.cond.text names inner) = c.binds.length :=
  (c.cond.questionMarks_text names inner).trans c.fits

theorem text_and (names : Names κ) (a b : Clause κ) :
    (a.and b).cond.text names false =
      a.cond.text names false ++ " AND " ++ b.cond.text names true := by
  rw [and, Cond.text]
  simp

theorem all_concat (c : Clause κ) (others : List (Clause κ)) (other : Clause κ) :
    c.all (others ++ [other]) = (c.all others).and other := by
  rw [all, List.foldl_append]
  rfl

end Clause

end QueQiao.Lib.SqlConditions
