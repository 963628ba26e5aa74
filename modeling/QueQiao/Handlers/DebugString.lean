import Mathlib.Data.List.TakeWhile
import QueQiao.Handlers.ErrorLog

namespace QueQiao.ErrorLogApi

def Clean (s : Text) : Prop := '"' ∉ s ∧ '\\' ∉ s

instance (s : Text) : Decidable (Clean s) :=
  inferInstanceAs (Decidable ('"' ∉ s ∧ '\\' ∉ s))

theorem clean_nil : Clean [] := ⟨List.not_mem_nil, List.not_mem_nil⟩

theorem clean_cons {c : Char} {s : Text} :
    Clean (c :: s) ↔ (c ≠ '"' ∧ c ≠ '\\') ∧ Clean s := by
  simp only [Clean, List.mem_cons, not_or, ne_comm (a := c), ne_eq]
  tauto

theorem clean_append {s t : Text} : Clean (s ++ t) ↔ Clean s ∧ Clean t := by
  simp only [Clean, List.mem_append, not_or]
  tauto

/-- What `parse_debug_string` does behind the opening quote: the text, the value that is read, and
what is left behind the closing quote. -/
inductive Reads : Text → Text → Text → Prop
  | stop (rest : Text) : Reads ('"' :: rest) [] rest
  | plain {c : Char} {text value rest : Text} (hquote : c ≠ '"') (hback : c ≠ '\\') :
      Reads text value rest → Reads (c :: text) (c :: value) rest
  | escape {c : Char} {text value rest : Text} (hc : c ≠ 'u') :
      Reads text value rest → Reads ('\\' :: c :: text) (unescape c :: value) rest
  | skip {text value rest : Text} (hopen : ∀ t, text = '{' :: t → '}' ∉ t) :
      Reads text value rest → Reads ('\\' :: 'u' :: text) value rest
  | unicode {hex text value rest : Text} (hhex : '}' ∉ hex) :
      Reads text value rest →
        Reads ('\\' :: 'u' :: '{' :: (hex ++ '}' :: text)) ((charFromHex hex).toList ++ value) rest

theorem splitOnceChar_eq_some {c : Char} {s a b : Text} (h : splitOnceChar c s = some (a, b)) :
    s = a ++ c :: b ∧ c ∉ a := by
  by_cases hmem : c ∈ s
  · obtain ⟨a', b', rfl, ha⟩ := List.eq_append_cons_of_mem hmem
    rw [splitOnceChar_append ha] at h
    obtain ⟨rfl, rfl⟩ := Prod.mk.inj (Option.some.inj h)
    exact ⟨rfl, ha⟩
  · have hnil : s.dropWhile (· ≠ c) = [] := by
      rw [List.dropWhile_eq_nil_iff]
      intro x hx
      rw [decide_eq_true_eq]
      exact ne_of_mem_of_not_mem hx hmem
    rw [splitOnceChar, hnil] at h
    cases h

theorem splitOnceChar_eq_none {c : Char} {s : Text} (h : splitOnceChar c s = none) : c ∉ s := by
  intro hmem
  obtain ⟨a, b, rfl, ha⟩ := List.eq_append_cons_of_mem hmem
  rw [splitOnceChar_append ha] at h
  cases h

theorem reads_of_debugLoop {fuel : ℕ} {text out value rest : Text}
    (h : debugLoop fuel text out = some (value, rest)) :
    ∃ read, value = out.reverse ++ read ∧ Reads text read rest := by
  fun_induction debugLoop fuel text out with
  | case1 => cases h
  | case2 => cases h
  | case3 fuel rest' out =>
    cases h
    exact ⟨[], (List.append_nil _).symm, .stop rest⟩
  | case4 => cases h
  | case5 fuel text' out hex rest' hsplit ih =>
    obtain ⟨read, hvalue, hreads⟩ := ih h
    obtain ⟨htext, hhex⟩ := splitOnceChar_eq_some hsplit
    refine ⟨(charFromHex hex).toList ++ read, ?_, htext ▸ .unicode hhex hreads⟩
    rw [hvalue, List.reverse_append, reverse_charFromHex, List.append_assoc]
  | case6 fuel text' out hsplit ih =>
    obtain ⟨read, hvalue, hreads⟩ := ih h
    refine ⟨read, hvalue, .skip ?_ hreads⟩
    intro t ht
    obtain ⟨-, rfl⟩ := List.cons.inj ht
    exact splitOnceChar_eq_none hsplit
  | case7 fuel text' out hopen ih =>
    obtain ⟨read, hvalue, hreads⟩ := ih h
    exact ⟨read, hvalue, .skip (fun t ht ↦ absurd ht (hopen t)) hreads⟩
  | case8 fuel c text' out hopen hu hascii ih =>
    obtain ⟨read, hvalue, hreads⟩ := ih h
    refine ⟨unescape c :: read, ?_, .escape hu hreads⟩
    rw [hvalue, List.reverse_cons, List.append_assoc, List.singleton_append]
  | case9 => cases h
  | case10 fuel c text' out hquote hend _ _ hnext ih =>
    obtain ⟨read, hvalue, hreads⟩ := ih h
    have hback : c ≠ '\\' := by
      intro hback
      cases text' with
      | nil => exact hend hback rfl
      | cons d text' => exact hnext d text' hback rfl
    refine ⟨c :: read, ?_, .plain hquote hback hreads⟩
    rw [hvalue, List.reverse_cons, List.append_assoc, List.singleton_append]

theorem reads_of_takeQuoted {input value rest : Text} (h : takeQuoted input = some (value, rest)) :
    ∃ text, trimStart input = '"' :: text ∧ Reads text value rest := by
  rw [takeQuoted, parseDebugString] at h
  split at h
  · rename_i text htrim
    obtain ⟨read, hvalue, hreads⟩ := reads_of_debugLoop h
    rw [List.reverse_nil, List.nil_append] at hvalue
    exact ⟨text, htrim, hvalue ▸ hreads⟩
  · cases h

section Reads

variable {text value rest : Text}

theorem length_le_of_read {read : Text}
    (h : value = read ∧ Clean read ∨ value.length < read.length) :
    value.length ≤ read.length := by
  rcases h with ⟨hvalue, -⟩ | hlength
  · rw [hvalue]
  · exact hlength.le

theorem utf8Len_unescape_le (c : Char) : utf8Len [unescape c] ≤ utf8Len ['\\', c] := by
  have hc : utf8Len [unescape c] ≤ utf8Len [c] := by
    unfold unescape
    split_ifs with hn hr ht h0
    · rw [hn]
      decide
    · rw [hr]
      decide
    · rw [ht]
      decide
    · rw [h0]
      decide
    · exact Nat.le_refl _
  rw [utf8Len_cons '\\']
  omega

theorem utf8Len_charFromHex_le (hex : Text) : utf8Len (charFromHex hex).toList ≤ 4 := by
  cases charFromHex hex with
  | none => exact Nat.zero_le _
  | some c => exact Char.utf8Size_le_four c

theorem utf8Len_escaped_le (hex : Text) :
    utf8Len (charFromHex hex).toList ≤ utf8Len ('\\' :: 'u' :: '{' :: (hex ++ ['}'])) := by
  have hone : '\\'.utf8Size = 1 ∧ 'u'.utf8Size = 1 ∧ '{'.utf8Size = 1 ∧ '}'.utf8Size = 1 := by
    decide
  have hle := utf8Len_charFromHex_le hex
  simp only [utf8Len_cons, utf8Len_append, utf8Len_nil]
  omega

theorem unescape_eq_close {c : Char} (h : unescape c = '}') : c = '}' := by
  revert h
  unfold unescape
  split_ifs
  · intro h
    cases h
  · intro h
    cases h
  · intro h
    cases h
  · intro h
    cases h
  · exact id

theorem Reads.consumed (h : Reads text value rest) :
    ∃ read, text = read ++ '"' :: rest ∧
      (value = read ∧ Clean read ∨ value.length < read.length) ∧ ('}' ∈ value → '}' ∈ read) := by
  induction h with
  | stop rest => exact ⟨[], rfl, .inl ⟨rfl, clean_nil⟩, id⟩
  | @plain c text value rest hquote hback h ih =>
    obtain ⟨read, htext, hread, hclose⟩ := ih
    refine ⟨c :: read, congrArg (c :: ·) htext, ?_, ?_⟩
    · rcases hread with ⟨hvalue, hclean⟩ | hlength
      · exact .inl ⟨congrArg (c :: ·) hvalue, clean_cons.mpr ⟨⟨hquote, hback⟩, hclean⟩⟩
      · exact .inr (Nat.succ_lt_succ hlength)
    · intro hmem
      rcases List.mem_cons.mp hmem with heq | hmem
      · rw [← heq]
        exact List.mem_cons_self
      · exact List.mem_cons_of_mem _ (hclose hmem)
  | @escape c text value rest hc h ih =>
    obtain ⟨read, htext, hread, hclose⟩ := ih
    have hle := length_le_of_read hread
    refine ⟨'\\' :: c :: read, by rw [htext]; rfl, .inr ?_, ?_⟩
    · simp only [List.length_cons]
      omega
    · intro hmem
      apply List.mem_cons_of_mem
      rcases List.mem_cons.mp hmem with heq | hmem
      · rw [unescape_eq_close heq.symm]
        exact List.mem_cons_self
      · exact List.mem_cons_of_mem _ (hclose hmem)
  | @skip text value rest _ h ih =>
    obtain ⟨read, htext, hread, hclose⟩ := ih
    have hle := length_le_of_read hread
    refine ⟨'\\' :: 'u' :: read, by rw [htext]; rfl, .inr ?_, ?_⟩
    · simp only [List.length_cons]
      omega
    · exact fun hmem ↦ List.mem_cons_of_mem _ (List.mem_cons_of_mem _ (hclose hmem))
  | @unicode hex text value rest hhex h ih =>
    obtain ⟨read, htext, hread, -⟩ := ih
    have hle := length_le_of_read hread
    have hone : (charFromHex hex).toList.length ≤ 1 := Option.length_toList_le
    refine ⟨'\\' :: 'u' :: '{' :: (hex ++ '}' :: read), by rw [htext]; simp, .inr ?_, ?_⟩
    · simp only [List.length_cons, List.length_append]
      omega
    · intro _
      simp

theorem Reads.length_lt (h : Reads text value rest) :
    value.length + rest.length < text.length := by
  obtain ⟨read, htext, hread, -⟩ := h.consumed
  have hle := length_le_of_read hread
  rw [htext, List.length_append, List.length_cons]
  omega

theorem Reads.measure_le (μ : Char → ℕ) (hescape : ∀ c, μ (unescape c) ≤ μ '\\' + μ c)
    (hunicode : ∀ c, μ c ≤ μ '\\' + μ 'u' + μ '{' + μ '}') (h : Reads text value rest) :
    ∃ read, text = read ++ '"' :: rest ∧ (value.map μ).sum ≤ (read.map μ).sum := by
  induction h with
  | stop rest => exact ⟨[], rfl, Nat.le_refl _⟩
  | @plain c text value rest _ _ _ ih =>
    obtain ⟨read, rfl, hle⟩ := ih
    refine ⟨c :: read, rfl, ?_⟩
    simp only [List.map_cons, List.sum_cons]
    omega
  | @escape c text value rest _ _ ih =>
    obtain ⟨read, rfl, hle⟩ := ih
    have hc := hescape c
    refine ⟨'\\' :: c :: read, rfl, ?_⟩
    simp only [List.map_cons, List.sum_cons]
    omega
  | @skip text value rest _ _ ih =>
    obtain ⟨read, rfl, hle⟩ := ih
    refine ⟨'\\' :: 'u' :: read, rfl, ?_⟩
    simp only [List.map_cons, List.sum_cons]
    omega
  | @unicode hex text value rest _ _ ih =>
    obtain ⟨read, rfl, hle⟩ := ih
    refine ⟨'\\' :: 'u' :: '{' :: (hex ++ '}' :: read), by simp, ?_⟩
    cases charFromHex hex with
    | none =>
      simp only [Option.toList_none, List.nil_append, List.map_cons, List.map_append,
        List.sum_cons, List.sum_append]
      omega
    | some c =>
      have hc := hunicode c
      simp only [Option.toList_some, List.singleton_append, List.map_cons, List.map_append,
        List.sum_cons, List.sum_append]
      omega

theorem Reads.utf8Len_le (h : Reads text value rest) :
    ∃ read, text = read ++ '"' :: rest ∧ utf8Len value ≤ utf8Len read := by
  refine h.measure_le Char.utf8Size ?_ fun c ↦ Char.utf8Size_le_four c
  intro c
  simpa using utf8Len_unescape_le c

def marks (s : Text) : ℕ := (s.map fun c ↦ if c = '"' ∨ c = '\\' then 1 else 0).sum

theorem marks_append (s t : Text) : marks (s ++ t) = marks s + marks t := by
  rw [marks, List.map_append, List.sum_append, marks, marks]

theorem marks_clean {s : Text} (h : Clean s) : marks s = 0 := by
  induction s with
  | nil => rfl
  | cons c s ih =>
    obtain ⟨⟨hquote, hback⟩, hclean⟩ := clean_cons.mp h
    rw [marks, List.map_cons, List.sum_cons, if_neg (not_or.mpr ⟨hquote, hback⟩), Nat.zero_add]
    exact ih hclean

theorem Reads.marks_le (h : Reads text value rest) :
    ∃ read, text = read ++ '"' :: rest ∧ marks value ≤ marks read := by
  have hone : ∀ c : Char, (if c = '"' ∨ c = '\\' then 1 else 0) ≤ 1 := by
    intro c
    split <;> omega
  refine h.measure_le _ (fun c ↦ (hone _).trans ?_) fun c ↦ (hone c).trans ?_
  · rw [if_pos (.inr rfl)]
    exact Nat.le_add_right 1 _
  · decide

theorem reads_quote {b : Text} (h : Reads ('"' :: b) value rest) : value = [] ∧ rest = b := by
  cases h with
  | stop => exact ⟨rfl, rfl⟩
  | plain hquote => exact absurd rfl hquote

theorem reads_append {g : Text} (hg : Clean g) (h : Reads (g ++ text) value rest) :
    ∃ v, value = g ++ v ∧ Reads text v rest := by
  induction g generalizing value with
  | nil => exact ⟨value, rfl, h⟩
  | cons c g ih =>
    obtain ⟨⟨hquote, hback⟩, hclean⟩ := clean_cons.mp hg
    rw [List.cons_append] at h
    generalize htail : g ++ text = tail at h
    cases h with
    | stop => exact absurd rfl hquote
    | plain _ _ h =>
      obtain ⟨v, hvalue, hreads⟩ := ih hclean (htail ▸ h)
      exact ⟨v, congrArg (c :: ·) hvalue, hreads⟩
    | escape => exact absurd rfl hback
    | skip => exact absurd rfl hback
    | unicode => exact absurd rfl hback

theorem reads_clean {g r : Text} (hg : Clean g) (h : Reads (g ++ '"' :: r) value rest) :
    value = g ∧ rest = r := by
  obtain ⟨v, hvalue, hreads⟩ := reads_append hg h
  obtain ⟨rfl, hrest⟩ := reads_quote hreads
  exact ⟨hvalue.trans (List.append_nil g), hrest⟩

theorem reads_named {c : Char} (hc : c ≠ 'u') (h : Reads ('\\' :: c :: text) value rest) :
    ∃ v, value = unescape c :: v ∧ Reads text v rest := by
  cases h with
  | plain _ hback => exact absurd rfl hback
  | escape _ h => exact ⟨_, rfl, h⟩
  | skip => exact absurd rfl hc
  | unicode => exact absurd rfl hc

theorem reads_unicode {hex : Text} (hhex : '}' ∉ hex)
    (h : Reads ('\\' :: 'u' :: '{' :: (hex ++ '}' :: text)) value rest) :
    ∃ v, value = (charFromHex hex).toList ++ v ∧ Reads text v rest := by
  generalize htail : hex ++ '}' :: text = tail at h
  cases h with
  | plain _ hback => exact absurd rfl hback
  | escape hc => exact absurd rfl hc
  | skip hopen =>
    have hmem : '}' ∈ tail := by
      rw [← htail]
      exact List.mem_append_right _ List.mem_cons_self
    exact absurd hmem (hopen tail rfl)
  | unicode hhex' h =>
    obtain ⟨rfl, rfl⟩ := append_cons_inj hhex hhex' htail
    exact ⟨_, rfl, h⟩

/-- A quote behind `a` is passed in the braces of an escape, which close in the text `b` behind the
quote. -/
def Passed (a b value rest : Text) : Prop :=
  ∃ front hex hex' text x v, a = front ++ '\\' :: 'u' :: '{' :: hex ∧ b = hex' ++ '}' :: text ∧
    '}' ∉ hex' ∧ value = x ++ v ∧ utf8Len x ≤ utf8Len front + 4 ∧ Reads text v rest

theorem Passed.append {a b w y : Text} (h : Passed a b value rest) (hy : utf8Len y ≤ utf8Len w) :
    Passed (w ++ a) b (y ++ value) rest := by
  obtain ⟨front, hex, hex', text, x, v, rfl, hb, hhex, rfl, hx, hreads⟩ := h
  refine ⟨w ++ front, hex, hex', text, y ++ x, v, (List.append_assoc _ _ _).symm, hb, hhex,
    (List.append_assoc _ _ _).symm, ?_, hreads⟩
  rw [utf8Len_append, utf8Len_append]
  omega

theorem passes_append {a b w y : Text}
    (h : b.length < rest.length ∨ rest = b ∨ Passed a b value rest)
    (hy : utf8Len y ≤ utf8Len w) :
    b.length < rest.length ∨ rest = b ∨ Passed (w ++ a) b (y ++ value) rest := by
  rcases h with hlong | hnext | hpassed
  · exact .inl hlong
  · exact .inr (.inl hnext)
  · exact .inr (.inr (hpassed.append hy))

theorem Reads.passes (h : Reads text value rest) {a b : Text} {c : Char}
    (htext : text = a ++ c :: '"' :: b) (hc : c ≠ '\\') :
    b.length < rest.length ∨ rest = b ∨ Passed (a ++ [c]) b value rest := by
  induction h generalizing a with
  | stop rest =>
    have hlength := congrArg List.length htext
    simp only [List.length_append, List.length_cons] at hlength
    exact .inl (by omega)
  | @plain d text value rest hquote hback h ih =>
    cases a with
    | nil =>
      obtain ⟨-, rfl⟩ := List.cons.inj htext
      exact .inr (.inl (reads_quote h).2)
    | cons x a =>
      obtain ⟨rfl, htail⟩ := List.cons.inj htext
      exact passes_append (w := [d]) (y := [d]) (ih htail) (Nat.le_refl _)
  | @escape d text value rest hd h ih =>
    match a, htext with
    | [], htext => exact absurd (List.cons.inj htext).1.symm hc
    | [_], htext =>
      obtain ⟨-, rfl⟩ := List.cons.inj (List.cons.inj htext).2
      exact .inr (.inl (reads_quote h).2)
    | x :: y :: a, htext =>
      simp only [List.cons_append, List.cons.injEq] at htext
      obtain ⟨rfl, rfl, htail⟩ := htext
      exact passes_append (w := ['\\', d]) (y := [unescape d]) (ih htail) (utf8Len_unescape_le d)
  | @skip text value rest _ h ih =>
    match a, htext with
    | [], htext => exact absurd (List.cons.inj htext).1.symm hc
    | [_], htext =>
      obtain ⟨-, rfl⟩ := List.cons.inj (List.cons.inj htext).2
      exact .inr (.inl (reads_quote h).2)
    | x :: y :: a, htext =>
      have htail := (List.cons.inj (List.cons.inj htext).2).2
      exact passes_append (w := [x, y]) (y := []) (ih htail) (Nat.zero_le _)
  | @unicode hex text value rest hhex h ih =>
    match a, htext with
    | [], htext => exact absurd (List.cons.inj htext).1.symm hc
    | [_], htext => simp at htext
    | [x, y], htext =>
      simp only [List.cons_append, List.nil_append, List.cons.injEq] at htext
      obtain ⟨rfl, rfl, rfl, hb⟩ := htext
      cases hex with
      | nil => simp at hb
      | cons z hex =>
        rw [List.mem_cons, not_or] at hhex
        exact .inr (.inr ⟨[], [], hex, text, _, value, rfl, (List.cons.inj hb).2.symm, hhex.2, rfl,
          utf8Len_charFromHex_le _, h⟩)
    | x :: y :: z :: a, htext =>
      simp only [List.cons_append, List.cons.injEq] at htext
      obtain ⟨rfl, rfl, rfl, hb⟩ := htext
      rcases List.append_eq_append_iff.mp hb with ⟨m, ha, hm⟩ | ⟨m, hhexm, hm⟩
      · cases m with
        | nil =>
          obtain ⟨-, rfl⟩ := List.cons.inj hm
          exact .inr (.inl (reads_quote h).2)
        | cons w m =>
          obtain ⟨rfl, htail⟩ := List.cons.inj hm
          have hadded := passes_append (w := '\\' :: 'u' :: '{' :: (hex ++ ['}'])) (ih htail)
            (utf8Len_escaped_le hex)
          rw [ha]
          simpa using hadded
      · match m, hm with
        | [], hm =>
          obtain ⟨-, rfl⟩ := List.cons.inj hm
          exact .inr (.inl (reads_quote h).2)
        | [_], hm => simp at hm
        | u :: v :: m, hm =>
          simp only [List.cons_append, List.cons.injEq] at hm
          obtain ⟨rfl, rfl, rfl⟩ := hm
          refine .inr (.inr ⟨[], a ++ [c], m, text, _, value, rfl, rfl, ?_, rfl,
            utf8Len_charFromHex_le _, h⟩)
          intro hmem
          refine hhex ?_
          rw [hhexm]
          exact List.mem_append_right _ (List.mem_cons_of_mem _ (List.mem_cons_of_mem _ hmem))

theorem Reads.crosses (h : Reads text value rest) {a b : Text} {c : Char}
    (htext : text = a ++ c :: '"' :: b) (hc : c ≠ '\\') :
    b.length < rest.length ∨ rest = b ∨ ∃ p, b = p ++ '"' :: rest ∧ '}' ∈ p := by
  refine (h.passes htext hc).imp_right fun hnext ↦ hnext.imp_right fun hpassed ↦ ?_
  obtain ⟨front, hex, hex', text, x, v, -, hb, -, -, -, hreads⟩ := hpassed
  obtain ⟨read, hread, -⟩ := hreads.consumed
  refine ⟨hex' ++ '}' :: read, ?_, List.mem_append_right _ List.mem_cons_self⟩
  rw [hb, hread]
  simp

/-- In front of `d` the text `a` has been read as itself or as a shorter text. -/
def ReadBefore (a : Text) (d : Char) (g value : Text) : Prop :=
  ∃ x, value = x ++ d :: g ∧ (x = a ∧ Clean a ∨ x.length < a.length) ∧
    (d = '"' → ∃ a₀, a = a₀ ++ ['\\'])

theorem ReadBefore.append {a g w y : Text} {d : Char} (h : ReadBefore a d g value)
    (hy : y.length < w.length) : ReadBefore (w ++ a) d g (y ++ value) := by
  obtain ⟨x, rfl, hread, hend⟩ := h
  have hle := length_le_of_read hread
  refine ⟨y ++ x, (List.append_assoc _ _ _).symm, .inr ?_, fun heq ↦ ?_⟩
  · rw [List.length_append, List.length_append]
    omega
  · obtain ⟨a₀, rfl⟩ := hend heq
    exact ⟨w ++ a₀, (List.append_assoc _ _ _).symm⟩

theorem ReadBefore.cons {a g : Text} {c d : Char} (h : ReadBefore a d g value) (hquote : c ≠ '"')
    (hback : c ≠ '\\') : ReadBefore (c :: a) d g (c :: value) := by
  obtain ⟨x, rfl, hread, hend⟩ := h
  refine ⟨c :: x, rfl, ?_, fun heq ↦ ?_⟩
  · rcases hread with ⟨rfl, hclean⟩ | hlength
    · exact .inl ⟨rfl, clean_cons.mpr ⟨⟨hquote, hback⟩, hclean⟩⟩
    · exact .inr (Nat.succ_lt_succ hlength)
  · obtain ⟨a₀, rfl⟩ := hend heq
    exact ⟨c :: a₀, rfl⟩

theorem Reads.closes_before (h : Reads text value rest) {g m : Text} {d : Char} (hd : d ≠ '}')
    (hclose : '}' ∉ g) : d :: (g ++ '"' :: rest) ≠ m ++ '}' :: text := by
  intro hm
  cases m with
  | nil => exact absurd (List.cons.inj hm).1 hd
  | cons w m =>
    have htail := (List.cons.inj hm).2
    have hlength := h.length_lt
    rcases List.append_eq_append_iff.mp htail with ⟨n, -, hn⟩ | ⟨n, hgn, hn⟩
    · have hshort := congrArg List.length hn
      simp only [List.length_append, List.length_cons] at hshort hlength
      omega
    · cases n with
      | nil => exact absurd (List.cons.inj hn).1 (by decide)
      | cons v n =>
        refine hclose ?_
        rw [hgn, (List.cons.inj hn).1]
        exact List.mem_append_right _ List.mem_cons_self

/-- Where the value ends with a clean text that is behind a character `d`, what is in front of `d`
has been read as itself or as a shorter text. -/
theorem Reads.through (h : Reads text value rest) {a g r : Text} {d : Char}
    (htext : text = a ++ d :: (g ++ '"' :: r)) (hrest : rest = r) (hd : d = '"' ∨ d = ' ')
    (hg : Clean g) (hclose : '}' ∉ g) : ReadBefore a d g value := by
  have hback : d ≠ '\\' := by
    rcases hd with rfl | rfl <;> decide
  induction h generalizing a with
  | stop rest =>
    have hlength := congrArg List.length htext
    simp only [hrest, List.length_append, List.length_cons] at hlength
    omega
  | @plain c text value rest hquote hplain h ih =>
    cases a with
    | nil =>
      obtain ⟨rfl, rfl⟩ := List.cons.inj htext
      refine ⟨[], congrArg (c :: ·) (reads_clean hg h).1, .inl ⟨rfl, clean_nil⟩, ?_⟩
      exact fun heq ↦ absurd heq hquote
    | cons x a =>
      obtain ⟨rfl, htail⟩ := List.cons.inj htext
      exact (ih htail hrest).cons hquote hplain
  | @escape c text value rest hc h ih =>
    match a, htext with
    | [], htext => exact absurd (List.cons.inj htext).1.symm hback
    | [x], htext =>
      obtain ⟨rfl, htail⟩ := List.cons.inj htext
      obtain ⟨rfl, rfl⟩ := List.cons.inj htail
      have hself : unescape c = c := by
        rcases hd with rfl | rfl <;> rfl
      refine ⟨[], ?_, .inr Nat.zero_lt_one, fun _ ↦ ⟨[], rfl⟩⟩
      rw [hself, (reads_clean hg h).1]
      rfl
    | x :: y :: a, htext =>
      have htail := (List.cons.inj (List.cons.inj htext).2).2
      exact (ih htail hrest).append (w := [x, y]) (y := [unescape c]) (Nat.lt_succ_self 1)
  | @skip text value rest _ h ih =>
    match a, htext with
    | [], htext => exact absurd (List.cons.inj htext).1.symm hback
    | [x], htext =>
      have hu : d = 'u' := (List.cons.inj (List.cons.inj htext).2).1.symm
      rcases hd with rfl | rfl <;> cases hu
    | x :: y :: a, htext =>
      have htail := (List.cons.inj (List.cons.inj htext).2).2
      exact (ih htail hrest).append (w := [x, y]) (y := []) Nat.zero_lt_two
  | @unicode hex text value rest hhex h ih =>
    have hdclose : d ≠ '}' := by
      rcases hd with rfl | rfl <;> decide
    match a, htext with
    | [], htext => exact absurd (List.cons.inj htext).1.symm hback
    | [x], htext =>
      have hu : d = 'u' := (List.cons.inj (List.cons.inj htext).2).1.symm
      rcases hd with rfl | rfl <;> cases hu
    | [x, y], htext =>
      have hopen : d = '{' := (List.cons.inj (List.cons.inj (List.cons.inj htext).2).2).1.symm
      rcases hd with rfl | rfl <;> cases hopen
    | x :: y :: z :: a, htext =>
      have hb := (List.cons.inj (List.cons.inj (List.cons.inj htext).2).2).2
      -- the braces close in front of `d`, or they would have to close behind the value
      rcases List.append_eq_append_iff.mp hb with ⟨m, ha, hm⟩ | ⟨m, -, hm⟩
      · cases m with
        | nil => exact absurd (List.cons.inj hm).1.symm hdclose
        | cons w m =>
          have hone : (charFromHex hex).toList.length ≤ 1 := Option.length_toList_le
          have hadded := (ih (List.cons.inj hm).2 hrest).append (w := x :: y :: z :: (hex ++ [w]))
            (y := (charFromHex hex).toList) (by simp only [List.length_cons]; omega)
          rw [ha]
          simpa using hadded
      · rw [← hrest] at hm
        exact absurd hm (h.closes_before hdclose hclose)

end Reads

section Loop

variable {fuel : ℕ} {c : Char} {hex text out r : Text}

theorem debugLoop_plain (hquote : c ≠ '"') (hback : c ≠ '\\') :
    debugLoop (fuel + 1) (c :: text) out = debugLoop fuel text (c :: out) := by
  rw [debugLoop] <;> simp_all

theorem debugLoop_escape (hu : c ≠ 'u') (hascii : c.toNat < 128) :
    debugLoop (fuel + 1) ('\\' :: c :: text) out = debugLoop fuel text (unescape c :: out) := by
  rw [debugLoop, if_pos hascii] <;> simp_all

theorem debugLoop_unicode (hhex : '}' ∉ hex) :
    debugLoop (fuel + 1) ('\\' :: 'u' :: '{' :: (hex ++ '}' :: text)) out =
      debugLoop fuel text ((charFromHex hex).toList ++ out) := by
  rw [debugLoop, splitOnceChar_append hhex]

theorem debugLoop_skip (hopen : ∀ t, text = '{' :: t → '}' ∉ t) :
    debugLoop (fuel + 1) ('\\' :: 'u' :: text) out = debugLoop fuel text out := by
  by_cases hbrace : ∃ t, text = '{' :: t
  · obtain ⟨t, rfl⟩ := hbrace
    cases hsplit : splitOnceChar '}' t with
    | none => rw [debugLoop, hsplit]
    | some split =>
      refine absurd ?_ (hopen t rfl)
      rw [(splitOnceChar_eq_some hsplit).1]
      exact List.mem_append_right _ List.mem_cons_self
  · rw [debugLoop]
    exact fun t ht ↦ hbrace ⟨t, ht⟩

theorem debugLoop_clean {w : Text} (hw : Clean w) (hfuel : w.length < fuel) :
    debugLoop fuel (w ++ '"' :: r) out = some (out.reverse ++ w, r) := by
  induction w generalizing fuel out with
  | nil =>
    obtain ⟨n, rfl⟩ := Nat.exists_eq_add_of_lt hfuel
    rw [List.nil_append, List.append_nil, debugLoop]
  | cons c w ih =>
    obtain ⟨⟨hquote, hback⟩, hclean⟩ := clean_cons.mp hw
    cases fuel with
    | zero => exact absurd hfuel (Nat.not_lt_zero _)
    | succ fuel =>
      rw [List.cons_append, debugLoop_plain hquote hback, ih hclean (Nat.lt_of_succ_lt_succ hfuel),
        List.reverse_cons, List.append_assoc, List.singleton_append]

theorem takeQuoted_of_trim {input w : Text} (htrim : trimStart input = '"' :: text)
    (hread : debugLoop (text.length + 1) text [] = some (w, r)) : takeQuoted input = some (w, r) := by
  rw [takeQuoted, parseDebugString, htrim]
  exact hread

theorem takeQuoted_clean {input w : Text} (hw : Clean w)
    (htrim : trimStart input = '"' :: (w ++ '"' :: r)) : takeQuoted input = some (w, r) := by
  refine takeQuoted_of_trim htrim (debugLoop_clean hw ?_)
  simp only [List.length_append, List.length_cons]
  omega

end Loop

section Places

variable {w g inner s t rest : Text}

theorem quote_split {x y m b : Text} (h : x ++ '"' :: y = m ++ b) :
    (∃ n, b = n ++ '"' :: y ∧ x = m ++ n) ∨ ∃ n, m = x ++ '"' :: n ∧ y = n ++ b := by
  rcases List.append_eq_append_iff.mp h with ⟨a, hm, hy⟩ | ⟨n, hx, hb⟩
  · cases a with
    | nil => exact .inl ⟨[], hy.symm, by rw [hm, List.append_nil, List.append_nil]⟩
    | cons c n =>
      obtain ⟨rfl, htail⟩ := List.cons.inj hy
      exact .inr ⟨n, hm, htail⟩
  · exact .inl ⟨n, hb, hx⟩

theorem not_closes_in_gap {n : Text} (hg : Clean g)
    (h : n ++ '"' :: rest = g ++ ' ' :: '"' :: inner) : ¬inner.length < rest.length := by
  intro hlong
  have hsplit : n ++ '"' :: rest = (g ++ [' ']) ++ '"' :: inner := by simpa using h
  rcases quote_split hsplit with ⟨m, hm, -⟩ | ⟨m, hm, -⟩
  · have hlength := congrArg List.length hm
    simp only [List.length_append, List.length_cons] at hlength
    omega
  · have hmem : '"' ∈ g ++ [' '] := by
      rw [hm]
      exact List.mem_append_right _ List.mem_cons_self
    rcases List.mem_append.mp hmem with hmem | hmem
    · exact hg.1 hmem
    · exact absurd hmem (by decide)

/-- What is left to read starts inside or behind the field whose text begins `inner`, and a brace
has been passed on the way. -/
def Beyond (inner rest : Text) : Prop := ∃ p, inner = p ++ '"' :: rest ∧ '}' ∈ p

/-- A value that is as long as what stands in front of a closing quote is that text, or the reading
goes beyond the next opening quote. -/
theorem reads_field (hg : Clean g) (hclose : '}' ∉ g) {q a : Text} (hw : w = q ++ a)
    (h : Reads (a ++ '"' :: (g ++ ' ' :: '"' :: inner)) w rest) :
    a = w ∧ Clean w ∧ rest = g ++ ' ' :: '"' :: inner ∨ Beyond inner rest := by
  obtain ⟨read, htext, hread, -⟩ := h.consumed
  have hle := length_le_of_read hread
  have ha : a.length ≤ w.length := by
    rw [hw, List.length_append]
    omega
  have hspace : a ++ '"' :: (g ++ ' ' :: '"' :: inner) = (a ++ '"' :: g) ++ ' ' :: '"' :: inner := by
    simp
  rcases h.crosses hspace (by decide) with hlong | hnext | hbeyond
  · have hsplit : read ++ '"' :: rest = (a ++ ['"']) ++ (g ++ ' ' :: '"' :: inner) := by
      rw [← htext]
      simp
    rcases quote_split hsplit with ⟨n, hn, -⟩ | ⟨n, hn, hrest⟩
    · exact absurd hlong (not_closes_in_gap hg hn.symm)
    · have hlength := congrArg List.length hn
      simp only [List.length_append, List.length_cons, List.length_nil] at hlength
      have hempty : n = [] := List.length_eq_zero_iff.mp (by omega)
      rw [hempty, List.nil_append] at hrest
      rw [hempty] at hn
      have hreada : a = read := (List.append_inj' hn rfl).1
      rcases hread with ⟨hvalue, hclean⟩ | hshort
      · exact .inl ⟨hreada.trans hvalue.symm, hvalue ▸ hclean, hrest⟩
      · rw [hreada] at ha
        omega
  · exfalso
    -- the closing quote is escaped by the last character of the field, and the value ends with a blank
    have hgap : Clean (g ++ [' ']) := clean_append.mpr ⟨hg, by decide⟩
    have hgapClose : '}' ∉ g ++ [' '] := by
      rw [List.mem_append, not_or]
      exact ⟨hclose, by decide⟩
    have htail : a ++ '"' :: (g ++ ' ' :: '"' :: inner) =
        a ++ '"' :: ((g ++ [' ']) ++ '"' :: inner) := by simp
    obtain ⟨x, hvalue, -, hback⟩ := h.through htail hnext (.inl rfl) hgap hgapClose
    obtain ⟨a₀, hlast⟩ := hback rfl
    have hends : (q ++ a₀) ++ ['\\'] = (x ++ '"' :: g) ++ [' '] := by
      rw [hw, hlast] at hvalue
      simpa using hvalue
    exact absurd (List.append_inj' hends rfl).2 (by decide)
  · exact .inr hbeyond

theorem trimStart_eq {text : Text} (h : trimStart t = '"' :: text) : ∃ ws, t = ws ++ '"' :: text :=
  ⟨t.takeWhile isWhiteSpace, by rw [← h, trimStart, List.takeWhile_append_dropWhile]⟩

theorem takeQuoted_field (hg : Clean g) (hclose : '}' ∉ g)
    (htrim : trimStart t = '"' :: (w ++ '"' :: (g ++ ' ' :: '"' :: inner)))
    (h : takeQuoted t = some (w, rest)) :
    Clean w ∧ rest = g ++ ' ' :: '"' :: inner ∨ Beyond inner rest := by
  obtain ⟨text, htext, hreads⟩ := reads_of_takeQuoted h
  obtain ⟨-, rfl⟩ := List.cons.inj (htrim.symm.trans htext)
  rcases reads_field hg hclose (List.nil_append w).symm hreads with ⟨-, hclean, hrest⟩ | hbeyond
  · exact .inl ⟨hclean, hrest⟩
  · exact .inr hbeyond

theorem Beyond.takeQuoted_field (hg : Clean g) (hclose : '}' ∉ g)
    (hs : Beyond (w ++ '"' :: (g ++ ' ' :: '"' :: inner)) s) {skipped : Text}
    (ht : s = skipped ++ t) (h : takeQuoted t = some (w, rest)) : Beyond inner rest := by
  obtain ⟨text, htext, hreads⟩ := reads_of_takeQuoted h
  obtain ⟨ws, hws⟩ := trimStart_eq htext
  obtain ⟨p, hp, hbrace⟩ := hs
  obtain ⟨read, hread, hvalue, hvalueBrace⟩ := hreads.consumed
  have hle := length_le_of_read hvalue
  have hline : (p ++ '"' :: (skipped ++ ws)) ++ '"' :: text =
      (w ++ '"' :: (g ++ [' '])) ++ '"' :: inner := by
    rw [ht, hws] at hp
    simpa using hp.symm
  rcases quote_split hline with ⟨n, hn, hq⟩ | ⟨a, ha, rfl⟩
  · -- the value is read from the next field, or from one behind it
    have hbraces : '}' ∈ w ∨ '}' ∈ n := by
      have hmem : '}' ∈ (w ++ '"' :: (g ++ [' '])) ++ n := by
        rw [← hq]
        exact List.mem_append_left _ hbrace
      simp only [List.mem_append, List.mem_cons, List.not_mem_nil, or_false] at hmem
      rcases hmem with (hmem | hmem | hmem | hmem) | hmem
      · exact .inl hmem
      · exact absurd hmem (by decide)
      · exact absurd hmem hclose
      · exact absurd hmem (by decide)
      · exact .inr hmem
    cases n with
    | nil =>
      obtain ⟨-, rfl⟩ := List.cons.inj hn
      exact ⟨read, hread, hbraces.elim hvalueBrace fun hmem ↦ absurd hmem List.not_mem_nil⟩
    | cons c n =>
      obtain ⟨rfl, rfl⟩ := List.cons.inj hn
      refine ⟨n ++ '"' :: read, by rw [hread]; simp, ?_⟩
      rw [List.mem_append, List.mem_cons]
      rcases hbraces with hmem | hmem
      · exact .inr (.inr (hvalueBrace hmem))
      · rcases List.mem_cons.mp hmem with hmem | hmem
        · exact absurd hmem (by decide)
        · exact .inl hmem
  · rcases quote_split ha.symm with ⟨n, hn, hq⟩ | ⟨a₁, ha₁, rfl⟩
    · exfalso
      cases n with
      | nil =>
        -- the value is what stands between the two fields, and has no quote
        obtain ⟨-, rfl⟩ := List.cons.inj hn
        have hgap : Clean (g ++ [' ']) := clean_append.mpr ⟨hg, by decide⟩
        obtain ⟨hw, -⟩ := reads_clean hgap hreads
        refine hgap.1 ?_
        rw [← hw, ← List.append_nil w, ← hq]
        exact List.mem_append_right _ List.mem_cons_self
      | cons c n =>
        have hmem : '"' ∈ g ++ [' '] := by
          rw [(List.cons.inj hn).2]
          exact List.mem_append_right _ List.mem_cons_self
        rcases List.mem_append.mp hmem with hmem | hmem
        · exact hg.1 hmem
        · exact absurd hmem (by decide)
    · have hown : (a₁ ++ '"' :: (g ++ [' '])) ++ '"' :: inner =
          a₁ ++ '"' :: (g ++ ' ' :: '"' :: inner) := by simp
      rw [hown] at hreads
      have hw : w = ((p ++ '"' :: (skipped ++ ws)) ++ ['"']) ++ a₁ := by
        rw [ha₁]
        simp
      rcases reads_field hg hclose hw hreads with ⟨heq, -⟩ | hbeyond
      · exfalso
        have hlength := congrArg List.length hw
        rw [heq] at hlength
        simp only [List.length_append, List.length_cons, List.length_nil] at hlength
        omega
      · exact hbeyond

end Places

end QueQiao.ErrorLogApi
