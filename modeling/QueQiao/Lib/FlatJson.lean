import Mathlib.Data.Char
import Mathlib.Data.List.TakeWhile
import Mathlib.Tactic.IntervalCases
import QueQiao.Lib.PrefixCodes

/-! The compact text of an object whose fields are numbers and strings or absent. -/

namespace QueQiao.Lib.FlatJson

open PrefixCodes

def shortEscapes : List (Char × Char) :=
  [('"', '"'), ('\\', '\\'), ('\x08', 'b'), ('\t', 't'), ('\n', 'n'), ('\x0c', 'f'), ('\r', 'r')]

def escapeChar (c : Char) : List Char :=
  match shortEscapes.find? (·.1 = c) with
  | some row => ['\\', row.2]
  | none =>
    if c.toNat < 32 then
      ['\\', 'u', '0', '0', Nat.digitChar (c.toNat / 16), Nat.digitChar (c.toNat % 16)]
    else [c]

def hexValue (c : Char) : ℕ := if c.isDigit then c.toNat - '0'.toNat else c.toNat - 'a'.toNat + 10

def readChar : List Char → Option (Char × List Char)
  | '\\' :: 'u' :: '0' :: '0' :: h :: l :: rest =>
    some (.ofNat (16 * hexValue h + hexValue l), rest)
  | '\\' :: c :: rest => (shortEscapes.find? (·.2 = c)).map fun row ↦ (row.1, rest)
  | c :: rest => some (c, rest)
  | [] => none

theorem readChar_control (rest : List Char) {n : ℕ} (h : n < 32) :
    readChar (escapeChar (.ofNat n) ++ rest) = some (.ofNat n, rest) := by
  interval_cases n <;> rfl

theorem readChar_escapeChar (c : Char) (rest : List Char) :
    readChar (escapeChar c ++ rest) = some (c, rest) := by
  by_cases hcontrol : c.toNat < 32
  · have hread := readChar_control rest hcontrol
    rwa [Char.ofNat_toNat] at hread
  by_cases hquote : c = '"'
  · rw [hquote]
    rfl
  by_cases hback : c = '\\'
  · rw [hback]
    rfl
  have hfind : shortEscapes.find? (·.1 = c) = none := by
    refine List.find?_eq_none.mpr fun row hrow heq ↦ ?_
    obtain rfl := of_decide_eq_true heq
    simp only [shortEscapes, List.mem_cons, List.not_mem_nil, or_false] at hrow
    rcases hrow with rfl | rfl | rfl | rfl | rfl | rfl | rfl
    · exact hquote rfl
    · exact hback rfl
    all_goals exact hcontrol (by decide)
  rw [escapeChar, hfind, if_neg hcontrol, List.singleton_append]
  unfold readChar
  split
  · rename_i heq
    exact absurd (List.cons.inj heq).1 hback
  · rename_i heq
    exact absurd (List.cons.inj heq).1 hback
  · rename_i heq
    obtain ⟨rfl, rfl⟩ := List.cons.inj heq
    rfl
  · rename_i heq
    cases heq

theorem selfDelimiting_escapeChar : SelfDelimiting (fun _ ↦ True) escapeChar := by
  intro a b r r' _ _ heq
  have hread := readChar_escapeChar a r
  rw [heq, readChar_escapeChar] at hread
  obtain ⟨rfl, rfl⟩ := Prod.ext_iff.mp (Option.some.inj hread)
  exact ⟨rfl, rfl⟩

theorem head_escapeChar (c : Char) : ∃ d rest, escapeChar c = d :: rest ∧ d ≠ '"' := by
  rw [escapeChar]
  split
  · exact ⟨_, _, rfl, by decide⟩
  · rename_i hfind
    split
    · exact ⟨_, _, rfl, by decide⟩
    · refine ⟨c, [], rfl, ?_⟩
      rintro rfl
      exact absurd hfind (by decide)

theorem escaped_inj {s t r r' : List Char}
    (h : s.flatMap escapeChar ++ '"' :: r = t.flatMap escapeChar ++ '"' :: r') :
    s = t ∧ r = r' := by
  induction s generalizing t with
  | nil =>
    cases t with
    | nil => exact ⟨rfl, (List.cons.inj h).2⟩
    | cons c t =>
      obtain ⟨d, rest, hd, hne⟩ := head_escapeChar c
      rw [List.flatMap_cons, hd] at h
      exact absurd (List.cons.inj h).1.symm hne
  | cons c s ih =>
    cases t with
    | nil =>
      obtain ⟨d, rest, hd, hne⟩ := head_escapeChar c
      rw [List.flatMap_cons, hd] at h
      exact absurd (List.cons.inj h).1 hne
    | cons c' t =>
      rw [List.flatMap_cons, List.flatMap_cons, List.append_assoc, List.append_assoc] at h
      obtain ⟨rfl, hrest⟩ := selfDelimiting_escapeChar c c' _ _ trivial trivial h
      obtain ⟨rfl, hr⟩ := ih hrest
      exact ⟨rfl, hr⟩

inductive Scalar
  | null
  | int (n : ℤ)
  | str (s : String)
  deriving DecidableEq, Repr

def intText (n : ℤ) : List Char :=
  if n < 0 then '-' :: Nat.toDigits 10 n.natAbs else Nat.toDigits 10 n.natAbs

def Scalar.text : Scalar → List Char
  | .null => "null".toList
  | .int n => intText n
  | .str s => '"' :: (s.toList.flatMap escapeChar ++ ['"'])

theorem isDigit_of_mem {c : Char} {n : ℕ} (h : c ∈ Nat.toDigits 10 n) : c.isDigit = true :=
  Nat.isDigit_of_mem_toDigits (by decide) (by decide) h

theorem toDigits_inj {n m : ℕ} (h : Nat.toDigits 10 n = Nat.toDigits 10 m) : n = m := by
  rw [← @Nat.ofDigitChars_ten_toDigits n, h, Nat.ofDigitChars_ten_toDigits]

theorem intText_inj {n m : ℤ} (h : intText n = intText m) : n = m := by
  have hminus : ∀ {k : ℕ} {rest : List Char}, Nat.toDigits 10 k ≠ '-' :: rest := by
    intro k rest heq
    have hdigit := isDigit_of_mem (n := k) (c := '-') (by rw [heq]; exact List.mem_cons_self)
    exact absurd hdigit (by decide)
  rw [intText, intText] at h
  split at h
  · split at h
    · have habs := toDigits_inj (List.cons.inj h).2
      omega
    · exact absurd h.symm hminus
  · split at h
    · exact absurd h hminus
    · have habs := toDigits_inj h
      omega

def isIntChar (c : Char) : Bool := c.isDigit || c = '-'

theorem isIntChar_of_mem {c : Char} {n : ℤ} (h : c ∈ intText n) : isIntChar c = true := by
  rw [isIntChar, Bool.or_eq_true]
  rw [intText] at h
  split at h
  · rcases List.mem_cons.mp h with rfl | h
    · exact .inr rfl
    · exact .inl (isDigit_of_mem h)
  · exact .inl (isDigit_of_mem h)

theorem intText_ne_nil (n : ℤ) : intText n ≠ [] := by
  rw [intText]
  split
  · exact List.cons_ne_nil _ _
  · exact Nat.toDigits_ne_nil

def Ends (r : List Char) : Prop := ∃ rest, r = ',' :: rest ∨ r = '}' :: rest

theorem takeWhile_intText {n : ℤ} {r : List Char} (hr : Ends r) :
    (intText n ++ r).takeWhile isIntChar = intText n := by
  rw [List.takeWhile_append_of_pos fun c hc ↦ isIntChar_of_mem hc]
  obtain ⟨rest, rfl | rfl⟩ := hr
  · rw [List.takeWhile_cons_of_neg (by decide), List.append_nil]
  · rw [List.takeWhile_cons_of_neg (by decide), List.append_nil]

theorem Scalar.head_text (v : Scalar) : ∃ c rest, v.text = c :: rest ∧
    (v = .null ∧ c = 'n' ∨ (∃ n, v = .int n) ∧ isIntChar c = true ∨
      (∃ s, v = .str s) ∧ c = '"') := by
  cases v with
  | null => exact ⟨'n', _, rfl, .inl ⟨rfl, rfl⟩⟩
  | int n =>
    obtain ⟨c, rest, hc⟩ := List.exists_cons_of_ne_nil (intText_ne_nil n)
    exact ⟨c, rest, hc, .inr (.inl ⟨⟨n, rfl⟩, isIntChar_of_mem (hc ▸ List.mem_cons_self)⟩)⟩
  | str s => exact ⟨'"', _, rfl, .inr (.inr ⟨⟨s, rfl⟩, rfl⟩)⟩

theorem Scalar.text_inj {v w : Scalar} {r r' : List Char} (hr : Ends r) (hr' : Ends r')
    (h : v.text ++ r = w.text ++ r') : v = w ∧ r = r' := by
  obtain ⟨c, rest, hv, hkind⟩ := v.head_text
  obtain ⟨d, rest', hw, hkind'⟩ := w.head_text
  have hhead : c = d := by
    rw [hv, hw] at h
    exact (List.cons.inj h).1
  subst hhead
  have hn : isIntChar 'n' = false := by decide
  have hq : isIntChar '"' = false := by decide
  rcases hkind with ⟨rfl, hc⟩ | ⟨⟨n, rfl⟩, hc⟩ | ⟨⟨s, rfl⟩, hc⟩ <;>
    rcases hkind' with ⟨rfl, hd⟩ | ⟨⟨m, rfl⟩, hd⟩ | ⟨⟨t, rfl⟩, hd⟩
  · exact ⟨rfl, List.append_cancel_left h⟩
  · rw [hc, hn] at hd
    cases hd
  · rw [hc] at hd
    exact absurd hd (by decide)
  · rw [hd, hn] at hc
    cases hc
  · have htake := congrArg (List.takeWhile isIntChar) h
    rw [Scalar.text, Scalar.text, takeWhile_intText hr, takeWhile_intText hr'] at htake
    obtain rfl := intText_inj htake
    exact ⟨rfl, List.append_cancel_left h⟩
  · rw [hd, hq] at hc
    cases hc
  · rw [hd] at hc
    exact absurd hc (by decide)
  · rw [hc, hq] at hd
    cases hd
  · simp only [Scalar.text, List.cons_append, List.append_assoc] at h
    obtain ⟨hst, hrest⟩ := escaped_inj (List.cons.inj h).2
    rw [String.toList_inj.mp hst]
    exact ⟨rfl, hrest⟩

def fieldsText : List (String × Scalar) → List Char
  | [] => ['}']
  | field :: fields =>
    ',' :: (Scalar.str field.1).text ++ ':' :: field.2.text ++ fieldsText fields

def objectText : List (String × Scalar) → List Char
  | [] => "\x7b\x7d".toList
  | field :: fields =>
    '{' :: (Scalar.str field.1).text ++ ':' :: field.2.text ++ fieldsText fields

theorem ends_fieldsText (fields : List (String × Scalar)) : Ends (fieldsText fields) := by
  cases fields with
  | nil => exact ⟨[], .inr rfl⟩
  | cons field fields => exact ⟨_, .inl rfl⟩

theorem fieldsText_inj {names : List String} {vs ws : List Scalar} (hv : vs.length = names.length)
    (hw : ws.length = names.length)
    (h : fieldsText (names.zip vs) = fieldsText (names.zip ws)) : vs = ws := by
  induction names generalizing vs ws with
  | nil => rw [List.length_eq_zero_iff.mp hv, List.length_eq_zero_iff.mp hw]
  | cons name names ih =>
    obtain ⟨v, vs, rfl⟩ := List.exists_cons_of_length_eq_add_one hv
    obtain ⟨w, ws, rfl⟩ := List.exists_cons_of_length_eq_add_one hw
    simp only [List.zip_cons_cons, fieldsText, List.cons_append, List.append_assoc] at h
    have hrest := List.append_cancel_left (List.cons.inj h).2
    obtain ⟨rfl, htail⟩ := Scalar.text_inj (ends_fieldsText _) (ends_fieldsText _)
      (List.cons.inj hrest).2
    rw [ih (Nat.succ.inj hv) (Nat.succ.inj hw) htail]

theorem objectText_inj {names : List String} {vs ws : List Scalar} (hv : vs.length = names.length)
    (hw : ws.length = names.length)
    (h : objectText (names.zip vs) = objectText (names.zip ws)) : vs = ws := by
  cases names with
  | nil => rw [List.length_eq_zero_iff.mp hv, List.length_eq_zero_iff.mp hw]
  | cons name names =>
    have hfields : fieldsText ((name :: names).zip vs) = fieldsText ((name :: names).zip ws) := by
      obtain ⟨v, vs, rfl⟩ := List.exists_cons_of_length_eq_add_one hv
      obtain ⟨w, ws, rfl⟩ := List.exists_cons_of_length_eq_add_one hw
      simp only [List.zip_cons_cons, objectText, fieldsText, List.cons_append] at h ⊢
      rw [(List.cons.inj h).2]
    exact fieldsText_inj hv hw hfields

end QueQiao.Lib.FlatJson
