import QueQiao.Handlers.DebugString
import QueQiao.Middleware.AccessLog
import Mathlib.Data.Nat.Digits.Lemmas

namespace QueQiao.AccessLog

open ErrorLogApi

section Debug

variable (unprintable : Char → Bool)

theorem hexDigit_digitChar : ∀ d < 16, hexDigit (Nat.digitChar d) = some d := by decide

theorem digitChar_ne_plus : ∀ d < 16, Nat.digitChar d ≠ '+' := by decide

theorem digitChar_ne_close : ∀ d < 16, Nat.digitChar d ≠ '}' := by decide

theorem digitChar_ne_quote : ∀ d < 16, Nat.digitChar d ≠ '"' := by decide

theorem foldl_hexDigit {ds : List ℕ} (h : ∀ d ∈ ds, d < 16) (k : ℕ) :
    (ds.map Nat.digitChar).foldl
        (fun n c ↦ n.bind fun n ↦ (hexDigit c).map (16 * n + ·)) (some k) =
      some (ds.foldl (fun n d ↦ 16 * n + d) k) := by
  induction ds generalizing k with
  | nil => rfl
  | cons d ds ih =>
    rw [List.map_cons, List.foldl_cons, List.foldl_cons, Option.bind_some,
      hexDigit_digitChar d (h d List.mem_cons_self), Option.map_some]
    exact ih (fun d hd ↦ h d (List.mem_cons_of_mem _ hd)) _

theorem charFromHex_digits {c : Char} (hc : c.toNat ≠ 0) :
    charFromHex ((Nat.digits 16 c.toNat).reverse.map Nat.digitChar) = some c := by
  have hlt : ∀ d ∈ (Nat.digits 16 c.toNat).reverse, d < 16 :=
    fun d hd ↦ Nat.digits_lt_base (by decide) (List.mem_reverse.mp hd)
  have hne : (Nat.digits 16 c.toNat).reverse ≠ [] := by
    rw [ne_eq, List.reverse_eq_nil_iff]
    exact Nat.digits_ne_nil_iff_ne_zero.mpr hc
  have hvalue : (Nat.digits 16 c.toNat).reverse.foldl (fun n d ↦ 16 * n + d) 0 = c.toNat := by
    have hdigits := Nat.ofDigits_digits 16 c.toNat
    rw [Nat.ofDigits_eq_foldr] at hdigits
    rw [List.foldl_reverse]
    simpa only [Nat.cast_id, Nat.add_comm] using hdigits
  have hvalid : c.toNat.isValidChar := c.valid
  have hplus : ∀ rest, (Nat.digits 16 c.toNat).reverse.map Nat.digitChar ≠ '+' :: rest := by
    intro rest heq
    refine not_mem_digits digitChar_ne_plus c.toNat ?_
    rw [heq]
    exact List.mem_cons_self
  rw [charFromHex]
  · rw [if_neg (by simpa using hne), foldl_hexDigit hlt, Option.bind_some, hvalue, if_pos hvalid]
    exact congrArg some (Char.ofNat_toNat c)
  · exact hplus

theorem named_ascii : ∀ e ∈ namedEscapes, e ≠ 'u' ∧ e.toNat < 128 := forall_named.mpr (by decide)

theorem debugLoop_escapeDebug (c : Char) (fuel : ℕ) (text out : Text) :
    debugLoop (fuel + 1) (escapeDebug unprintable c ++ text) out =
      debugLoop fuel text (c :: out) := by
  have hwritten := written_escapeDebug unprintable c
  generalize escapeDebug unprintable c = written at hwritten ⊢
  cases hwritten with
  | named he =>
    obtain ⟨hu, hascii⟩ := named_ascii _ he
    exact debugLoop_escape hu hascii
  | number hzero =>
    have hread : debugLoop (fuel + 1) ('\\' :: 'u' :: '{' ::
        ((Nat.digits 16 c.toNat).reverse.map Nat.digitChar ++ '}' :: text)) out =
          debugLoop fuel text (c :: out) := by
      rw [debugLoop_unicode (not_mem_digits digitChar_ne_close c.toNat), charFromHex_digits hzero]
      rfl
    simpa only [List.append_assoc, List.cons_append, List.nil_append] using hread
  | plain hquote hback => exact debugLoop_plain hquote hback

theorem debugLoop_escaped (s : Text) {fuel : ℕ} {r out : Text}
    (hfuel : (s.flatMap (escapeDebug unprintable)).length < fuel) :
    debugLoop fuel (s.flatMap (escapeDebug unprintable) ++ '"' :: r) out =
      some (out.reverse ++ s, r) := by
  induction s generalizing fuel out with
  | nil => exact debugLoop_clean clean_nil hfuel
  | cons c s ih =>
    cases fuel with
    | zero => exact absurd hfuel (Nat.not_lt_zero _)
    | succ fuel =>
      have hpos : 0 < (escapeDebug unprintable c).length := by
        have hwritten := written_escapeDebug unprintable c
        generalize escapeDebug unprintable c = written at hwritten ⊢
        cases hwritten <;> exact Nat.succ_pos _
      rw [List.flatMap_cons, List.length_append] at hfuel
      rw [List.flatMap_cons, List.append_assoc, debugLoop_escapeDebug, ih (by omega),
        List.reverse_cons, List.append_assoc, List.singleton_append]

theorem takeQuoted_debugStr {input r : Text} (s : String)
    (htrim : trimStart input = debugStr unprintable s ++ r) :
    takeQuoted input = some (s.toList, r) := by
  have hquoted : debugStr unprintable s ++ r =
      '"' :: (s.toList.flatMap (escapeDebug unprintable) ++ '"' :: r) := by
    simp [debugStr]
  refine takeQuoted_of_trim (htrim.trans hquoted) (debugLoop_escaped unprintable s.toList ?_)
  simp only [List.length_append, List.length_cons]
  omega

theorem reads_escapeDebug {c : Char} {text value rest : Text}
    (h : Reads (escapeDebug unprintable c ++ text) value rest) :
    ∃ v, value = c :: v ∧ Reads text v rest := by
  have hwritten := written_escapeDebug unprintable c
  generalize escapeDebug unprintable c = written at hwritten h
  cases hwritten with
  | named he => exact reads_named (named_ascii _ he).1 h
  | number hzero =>
    simp only [List.append_assoc, List.cons_append, List.nil_append] at h
    obtain ⟨v, hvalue, hreads⟩ := reads_unicode (not_mem_digits digitChar_ne_close c.toNat) h
    rw [charFromHex_digits hzero] at hvalue
    exact ⟨v, hvalue, hreads⟩
  | plain hquote hback => exact reads_append (clean_cons.mpr ⟨⟨hquote, hback⟩, clean_nil⟩) h

theorem reads_escaped {s r value rest : Text}
    (h : Reads (s.flatMap (escapeDebug unprintable) ++ '"' :: r) value rest) :
    value = s ∧ rest = r := by
  induction s generalizing value with
  | nil => exact reads_quote h
  | cons c s ih =>
    rw [List.flatMap_cons, List.append_assoc] at h
    obtain ⟨v, rfl, hreads⟩ := reads_escapeDebug unprintable h
    obtain ⟨rfl, hrest⟩ := ih hreads
    exact ⟨rfl, hrest⟩

theorem escapeDebug_close {c : Char} {front back : Text}
    (h : escapeDebug unprintable c = front ++ '}' :: back) : back = [] := by
  rcases List.eq_nil_or_concat back with rfl | ⟨inner, d, rfl⟩
  · rfl
  exfalso
  rw [List.concat_eq_append] at h
  have hmem : '}' ∈ (escapeDebug unprintable c).dropLast := by
    have hinner : front ++ '}' :: (inner ++ [d]) = (front ++ '}' :: inner) ++ [d] := by simp
    rw [h, hinner, List.dropLast_concat]
    exact List.mem_append_right _ List.mem_cons_self
  have hnamed : ∀ e ∈ namedEscapes, '}' ∉ ['\\', e].dropLast := forall_named.mpr (by decide)
  have hwritten := written_escapeDebug unprintable c
  generalize escapeDebug unprintable c = written at hwritten hmem
  cases hwritten with
  | named he => exact hnamed _ he hmem
  | number =>
    rw [← List.cons_append, ← List.cons_append, ← List.cons_append, List.dropLast_concat] at hmem
    simp only [List.mem_cons] at hmem
    rcases hmem with hmem | hmem | hmem | hmem
    · exact absurd hmem (by decide)
    · exact absurd hmem (by decide)
    · exact absurd hmem (by decide)
    · exact not_mem_digits digitChar_ne_close c.toNat hmem
  | plain => exact List.not_mem_nil hmem

theorem escaped_close {s hex text : Text}
    (h : s.flatMap (escapeDebug unprintable) ++ ['"'] = hex ++ '}' :: text) :
    ∃ read c left, s = read ++ c :: left ∧
      text = left.flatMap (escapeDebug unprintable) ++ ['"'] := by
  induction s generalizing hex with
  | nil =>
    have hmem : '}' ∈ ['"'] := by
      rw [List.flatMap_nil, List.nil_append] at h
      rw [h]
      exact List.mem_append_right _ List.mem_cons_self
    exact absurd hmem (by decide)
  | cons c s ih =>
    rw [List.flatMap_cons, List.append_assoc] at h
    rcases List.append_eq_append_iff.mp h with ⟨m, rfl, hm⟩ | ⟨m, hm, hnext⟩
    · obtain ⟨read, d, left, rfl, htext⟩ := ih hm
      exact ⟨c :: read, d, left, rfl, htext⟩
    · cases m with
      | nil =>
        obtain ⟨read, d, left, rfl, htext⟩ := @ih [] hnext.symm
        exact ⟨c :: read, d, left, rfl, htext⟩
      | cons x m =>
        obtain ⟨rfl, htext⟩ := List.cons.inj hnext
        refine ⟨[], c, s, rfl, ?_⟩
        rw [htext, escapeDebug_close unprintable hm]
        rfl

theorem mem_escapeDebug {c : Char} (h : '"' ∈ escapeDebug unprintable c) : c = '"' := by
  have hnamed : ∀ e ∈ namedEscapes, '"' ∈ ['\\', e] → unescape e = '"' :=
    forall_named.mpr (by decide)
  have hwritten := written_escapeDebug unprintable c
  generalize escapeDebug unprintable c = written at hwritten h
  cases hwritten with
  | named he => exact hnamed _ he h
  | number => exact absurd h (not_mem_number digitChar_ne_quote (by decide) c.toNat)
  | plain => exact (List.mem_singleton.mp h).symm

def QuotesEscaped (s : Text) : Prop := ∀ a b, s = a ++ '"' :: b → ∃ a₀, a = a₀ ++ ['\\']

theorem quotesEscaped_of_clean {s : Text} (h : '"' ∉ s) : QuotesEscaped s := by
  intro a b heq
  refine absurd ?_ h
  rw [heq]
  exact List.mem_append_right _ List.mem_cons_self

theorem quotesEscaped_escapeDebug (c : Char) : QuotesEscaped (escapeDebug unprintable c) := by
  by_cases hquote : '"' ∈ escapeDebug unprintable c
  · have hc := mem_escapeDebug unprintable hquote
    intro a b heq
    rw [hc] at heq
    have hesc : escapeDebug unprintable '"' = ['\\', '"'] := rfl
    rw [hesc] at heq
    match a, heq with
    | [], heq => exact absurd (List.cons.inj heq).1 (by decide)
    | [x], heq => exact ⟨[], by rw [(List.cons.inj heq).1]; rfl⟩
    | x :: y :: a, heq =>
      have hlength := congrArg List.length heq
      simp only [List.length_append, List.length_cons, List.length_nil] at hlength
      omega
  · exact quotesEscaped_of_clean hquote

theorem QuotesEscaped.append {s t : Text} (hs : QuotesEscaped s) (ht : QuotesEscaped t) :
    QuotesEscaped (s ++ t) := by
  intro a b heq
  rcases quote_split heq.symm with ⟨n, hn, rfl⟩ | ⟨n, hn, -⟩
  · obtain ⟨a₀, rfl⟩ := ht n b hn
    exact ⟨s ++ a₀, (List.append_assoc _ _ _).symm⟩
  · exact hs a n hn

theorem quotesEscaped_escaped (s : Text) :
    QuotesEscaped (s.flatMap (escapeDebug unprintable)) := by
  induction s with
  | nil => exact quotesEscaped_of_clean List.not_mem_nil
  | cons c s ih =>
    rw [List.flatMap_cons]
    exact (quotesEscaped_escapeDebug unprintable c).append ih

theorem mem_escaped {s : Text} (h : '"' ∈ s.flatMap (escapeDebug unprintable)) : '"' ∈ s := by
  obtain ⟨c, hc, hquote⟩ := List.mem_flatMap.mp h
  exact mem_escapeDebug unprintable hquote ▸ hc

end Debug

end QueQiao.AccessLog
