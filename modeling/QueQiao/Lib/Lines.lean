import Mathlib.Data.List.Basic

namespace QueQiao.Lib.Lines

variable {α : Type} {sep : α}

def Ended (sep : α) (text : List α) : Prop := text = [] ∨ text.getLast? = some sep

theorem Ended.tail {c : α} {text : List α} (h : Ended sep (c :: text)) : Ended sep text := by
  cases text with
  | nil => exact .inl rfl
  | cons d text =>
    refine .inr ?_
    rcases h with h | h
    · cases h
    · rw [← h]
      exact List.getLast?_cons_cons.symm

def slice (text : List α) (segment : ℕ × ℕ) : List α :=
  (text.drop segment.1).take (segment.2 - segment.1)

/-- Segments that hold the lines of a text from a position on. -/
inductive Segments (sep : α) (text : List α) : ℕ → List (ℕ × ℕ) → Prop
  | done : Segments sep text text.length []
  | rest {s : ℕ} (lt : s < text.length) (open_ : sep ∉ text.drop s) :
      Segments sep text s [(s, text.length)]
  | line {s e : ℕ} {more : List (ℕ × ℕ)} (le : s ≤ e) (lt : e < text.length)
      (at_end : text[e]? = some sep) (inside : sep ∉ slice text (s, e))
      (next : Segments sep text (e + 1) more) : Segments sep text s ((s, e) :: more)

theorem drop_eq_slice {text : List α} {s e : ℕ} (hle : s ≤ e) (hend : text[e]? = some sep) :
    text.drop s = slice text (s, e) ++ sep :: text.drop (e + 1) := by
  have hlt : e < text.length := (List.getElem?_eq_some_iff.mp hend).1
  have hsplit := List.take_append_drop (e - s) (text.drop s)
  rw [List.drop_drop, Nat.add_sub_cancel' hle, List.drop_eq_getElem_cons hlt,
    (List.getElem?_eq_some_iff.mp hend).2] at hsplit
  exact hsplit.symm

theorem Segments.drop {text : List α} {s : ℕ} {segs : List (ℕ × ℕ)}
    (h : Segments sep text s segs) {k s' e' : ℕ} {more : List (ℕ × ℕ)}
    (hdrop : segs.drop k = (s', e') :: more) :
    Segments sep text s' (segs.drop k) ∧ s' < text.length ∧
      (k = 0 ∧ s' = s ∨ ∃ i, s' = i + 1 ∧ text[i]? = some sep) := by
  induction h generalizing k with
  | done => cases k <;> cases hdrop
  | rest hlt hopen =>
    cases k with
    | zero =>
      cases hdrop
      exact ⟨.rest hlt hopen, hlt, .inl ⟨rfl, rfl⟩⟩
    | succ k => rw [List.drop_succ_cons, List.drop_nil] at hdrop; cases hdrop
  | @line s e rest hle hlt hend hinside hnext ih =>
    cases k with
    | zero =>
      cases hdrop
      exact ⟨.line hle hlt hend hinside hnext, Nat.lt_of_le_of_lt hle hlt, .inl ⟨rfl, rfl⟩⟩
    | succ k =>
      rw [List.drop_succ_cons] at hdrop ⊢
      obtain ⟨hsegs, hlt', hstart⟩ := ih hdrop
      refine ⟨hsegs, hlt', .inr ?_⟩
      rcases hstart with ⟨_, rfl⟩ | hstart
      · exact ⟨e, rfl, hend⟩
      · exact hstart

theorem ended_take {text : List α} {i : ℕ} (h : text[i]? = some sep) :
    Ended sep (text.take (i + 1)) := by
  obtain ⟨hlt, hget⟩ := List.getElem?_eq_some_iff.mp h
  rw [List.take_succ_eq_append_getElem hlt, hget]
  exact .inr List.getLast?_concat

theorem Segments.nil_eq {text : List α} {s : ℕ} (h : Segments sep text s []) :
    s = text.length := by
  cases h
  rfl

section Lines

variable [DecidableEq α]

def push (c : α) : List (List α) → List (List α)
  | [] => [[c]]
  | line :: more => (c :: line) :: more

/-- The lines of a text: pieces that a separator ends, which the last piece may lack. -/
def lines (sep : α) : List α → List (List α)
  | [] => []
  | c :: rest => if c = sep then [] :: lines sep rest else push c (lines sep rest)

theorem lines_ne_nil {text : List α} (h : text ≠ []) : lines sep text ≠ [] := by
  cases text with
  | nil => exact absurd rfl h
  | cons c text =>
    rw [lines]
    split
    · exact List.cons_ne_nil _ _
    · cases lines sep text <;> exact List.cons_ne_nil _ _

theorem lines_append {text : List α} (h : Ended sep text) (more : List α) :
    lines sep (text ++ more) = lines sep text ++ lines sep more := by
  induction text with
  | nil => rfl
  | cons c text ih =>
    rw [List.cons_append, lines, lines, ih h.tail]
    split
    · rfl
    · rename_i hc
      have hne : text ≠ [] := by
        rintro rfl
        rcases h with h | h
        · cases h
        · exact hc (Option.some.inj h)
      cases hlines : lines sep text with
      | nil => exact absurd hlines (lines_ne_nil hne)
      | cons line rest => rfl

theorem lines_of_not_mem {text : List α} (h : sep ∉ text) (hne : text ≠ []) :
    lines sep text = [text] := by
  induction text with
  | nil => exact absurd rfl hne
  | cons c text ih =>
    rw [List.mem_cons, not_or] at h
    rw [lines, if_neg (Ne.symm h.1)]
    by_cases htext : text = []
    · rw [htext]
      rfl
    · rw [ih h.2 htext]
      rfl

theorem lines_line {text : List α} (h : sep ∉ text) (more : List α) :
    lines sep (text ++ sep :: more) = text :: lines sep more := by
  induction text with
  | nil => rw [List.nil_append, lines, if_pos rfl]
  | cons c text ih =>
    rw [List.mem_cons, not_or] at h
    rw [List.cons_append, lines, if_neg (Ne.symm h.1), ih h.2]
    rfl

theorem Segments.lines {text : List α} {s : ℕ} {segs : List (ℕ × ℕ)}
    (h : Segments sep text s segs) : segs.map (slice text) = lines sep (text.drop s) := by
  induction h with
  | done =>
    rw [List.drop_length]
    rfl
  | @rest s hlt hopen =>
    have hne : text.drop s ≠ [] := by
      intro hnil
      rw [List.drop_eq_nil_iff] at hnil
      exact absurd hnil (Nat.not_le.mpr hlt)
    rw [lines_of_not_mem hopen hne, List.map_singleton, slice]
    rw [← List.length_drop, List.take_length]
  | line hle _ hend hinside _ ih =>
    rw [List.map_cons, ih, drop_eq_slice hle hend, lines_line hinside]

theorem Segments.count_le {text : List α} {s : ℕ} {segs : List (ℕ × ℕ)}
    (h : Segments sep text s segs) : (text.drop s).count sep ≤ segs.length := by
  induction h with
  | done => simp
  | rest _ hopen => rw [List.count_eq_zero_of_not_mem hopen]; exact Nat.zero_le _
  | line hle _ hend hinside _ ih =>
    rw [drop_eq_slice hle hend, List.count_append, List.count_eq_zero_of_not_mem hinside,
      List.count_cons_self, List.length_cons]
    omega

end Lines

end QueQiao.Lib.Lines
