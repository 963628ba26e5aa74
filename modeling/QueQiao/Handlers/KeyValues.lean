import QueQiao.Handlers.DebugString
import Mathlib.Data.List.TakeWhile

namespace QueQiao.ErrorLogApi

section Trim

theorem trimStart_split (s : Text) : ∃ ws, s = ws ++ trimStart s :=
  ⟨s.takeWhile isWhiteSpace, List.takeWhile_append_dropWhile.symm⟩

theorem trim_split (s : Text) : ∃ front back, s = front ++ (trim s ++ back) := by
  obtain ⟨front, hfront⟩ := trimStart_split s
  obtain ⟨back, hback⟩ := trimStart_split (trimStart s).reverse
  refine ⟨front, back.reverse, ?_⟩
  have hend : trimStart s = trim s ++ back.reverse := by
    have hreverse := congrArg List.reverse hback
    rw [List.reverse_reverse, List.reverse_append] at hreverse
    exact hreverse
  rw [← hend]
  exact hfront

theorem utf8Len_trim_le (s : Text) : utf8Len (trim s) ≤ utf8Len s := by
  obtain ⟨front, back, hs⟩ := trim_split s
  have hlength := congrArg utf8Len hs
  rw [utf8Len_append, utf8Len_append] at hlength
  omega

theorem trim_concat {c : Char} (hc : isWhiteSpace c = false) (s : Text) :
    ∃ front, trim (s ++ [c]) = front ++ [c] := by
  have hstart : ∃ front, trimStart (s ++ [c]) = front ++ [c] := by
    rw [trimStart, List.dropWhile_append]
    split
    · exact ⟨[], List.dropWhile_cons_of_neg (by simp [hc])⟩
    · exact ⟨_, rfl⟩
  obtain ⟨front, hfront⟩ := hstart
  exact ⟨front, by rw [trim, hfront, trimEnd_concat hc]⟩

end Trim

/-- A value that is read as it stands when it has no quotes around it. -/
def Bare (s : Text) : Prop := (∀ c ∈ s, isWhiteSpace c = false) ∧ s.head? ≠ some '"'

instance (s : Text) : Decidable (Bare s) :=
  @instDecidableAnd _ _ (List.decidableBAll _ s) _

/-- What stands behind the `=` of a field, its value, and what is left. -/
inductive TakesValue : Text → Text → Text → Prop
  | token {after : Text} (hquote : after.head? ≠ some '"') :
      TakesValue after (after.takeWhile fun c ↦ !isWhiteSpace c)
        (after.dropWhile fun c ↦ !isWhiteSpace c)
  | quoted {text value rest : Text} :
      Reads text value rest → TakesValue ('"' :: text) value rest

/-- The fields that `parse_kv_fields` finds in a text. -/
inductive Finds : Text → List (Text × Text) → Prop
  | stop (text : Text) : Finds text []
  | field {key after value rest : Text} {fields : List (Text × Text)} (hkey : '=' ∉ key)
      (hvalue : TakesValue after value rest) :
      Finds (trimStart rest) fields → Finds (key ++ '=' :: after) ((trim key, value) :: fields)

section Fields

variable {fuel : ℕ} {key text value rest : Text}

theorem head?_eq_quote {after : Text} (h : after.head? = some '"') :
    ∃ text, after = '"' :: text := by
  cases after with
  | nil => cases h
  | cons c text => exact ⟨text, by rw [Option.some.inj h]⟩

theorem finds_parseKvFields (fuel : ℕ) (text : Text) : Finds text (parseKvFields fuel text) := by
  induction fuel generalizing text with
  | zero => exact .stop text
  | succ fuel ih =>
    rw [parseKvFields]
    cases hsplit : splitOnceChar '=' text with
    | none => exact .stop text
    | some parts =>
      obtain ⟨key, after⟩ := parts
      obtain ⟨rfl, hkey⟩ := splitOnceChar_eq_some hsplit
      dsimp only
      by_cases hquote : after.head? = some '"'
      · rw [if_pos hquote]
        obtain ⟨inner, rfl⟩ := head?_eq_quote hquote
        cases hparse : parseDebugString ('"' :: inner) with
        | none => exact .stop _
        | some found =>
          obtain ⟨value, rest⟩ := found
          obtain ⟨text, htext, hreads⟩ := reads_of_takeQuoted hparse
          obtain ⟨-, rfl⟩ := List.cons.inj htext
          exact .field hkey (.quoted hreads) (ih _)
      · rw [if_neg hquote]
        exact .field hkey (.token hquote) (ih _)

theorem TakesValue.bare_or_quoted {after : Text} (h : TakesValue after value rest) :
    Bare value ∨ ∃ text, after = '"' :: text ∧ Reads text value rest := by
  cases h with
  | token hquote =>
    refine .inl ⟨fun c hc ↦ ?_, ?_⟩
    · have hword := List.mem_takeWhile_imp hc
      rwa [Bool.not_eq_true'] at hword
    · cases after with
      | nil => exact hquote
      | cons c after =>
        rw [List.takeWhile_cons]
        split
        · exact hquote
        · exact Option.some_ne_none _ ∘ Eq.symm
  | quoted hreads => exact .inr ⟨_, rfl, hreads⟩

theorem TakesValue.utf8Len_le {after : Text} (h : TakesValue after value rest) :
    ∃ taken, after = taken ++ rest ∧ utf8Len value ≤ utf8Len taken := by
  cases h with
  | token => exact ⟨_, List.takeWhile_append_dropWhile.symm, Nat.le_refl _⟩
  | quoted hreads =>
    obtain ⟨read, rfl, hle⟩ := hreads.utf8Len_le
    refine ⟨'"' :: (read ++ ['"']), by simp, ?_⟩
    simp only [utf8Len_cons, utf8Len_append]
    omega

theorem Finds.split {before fields : List (Text × Text)} {field : Text × Text}
    (h : Finds text (before ++ field :: fields)) :
    ∃ front key after rest, text = front ++ (key ++ '=' :: after) ∧ field.1 = trim key ∧
      TakesValue after field.2 rest ∧ Finds (trimStart rest) fields ∧
      ∀ other ∈ before, utf8Len other.1 + utf8Len other.2 ≤ utf8Len front := by
  induction before generalizing text with
  | nil =>
    rw [List.nil_append] at h
    cases h with
    | field _ hvalue hfields =>
      exact ⟨[], _, _, _, rfl, rfl, hvalue, hfields, fun _ hmem ↦ absurd hmem List.not_mem_nil⟩
  | cons first before ih =>
    rw [List.cons_append] at h
    cases h with
    | @field key after value rest _ _ hvalue hfields =>
      obtain ⟨taken, rfl, htaken⟩ := hvalue.utf8Len_le
      obtain ⟨ws, hws⟩ := trimStart_split rest
      obtain ⟨front, key', after', rest', htext, hkey', hvalue', hfields', hfront⟩ := ih hfields
      refine ⟨key ++ '=' :: (taken ++ (ws ++ front)), key', after', rest', ?_, hkey', hvalue',
        hfields', ?_⟩
      · rw [hws, htext]
        simp
      · intro other hother
        have htrim := utf8Len_trim_le key
        simp only [utf8Len_append, utf8Len_cons]
        rcases List.mem_cons.mp hother with rfl | hother
        · dsimp only
          omega
        · have hle := hfront other hother
          omega

theorem parseKvFields_nil (fuel : ℕ) : parseKvFields fuel [] = [] := by
  cases fuel <;> rfl

theorem parseKvFields_bare (hkey : '=' ∉ key) (hvalue : Bare value) :
    parseKvFields (fuel + 1) (key ++ '=' :: (value ++ ' ' :: rest)) =
      (trim key, value) :: parseKvFields fuel (trimStart rest) := by
  have hword : ∀ c ∈ value, (!isWhiteSpace c) = true := by
    intro c hc
    rw [hvalue.1 c hc, Bool.not_false]
  have hhead : (value ++ ' ' :: rest).head? ≠ some '"' := by
    cases value with
    | nil => exact fun h ↦ absurd (Option.some.inj h) (by decide)
    | cons c value => exact hvalue.2
  have hblank : trimStart (' ' :: rest) = trimStart rest := List.dropWhile_cons_of_pos (by decide)
  rw [parseKvFields, splitOnceChar_append hkey]
  dsimp only
  rw [if_neg hhead, List.takeWhile_append_of_pos hword, List.dropWhile_append_of_pos hword,
    List.takeWhile_cons_of_neg (by decide), List.dropWhile_cons_of_neg (by decide),
    List.append_nil]
  dsimp only
  rw [hblank]

theorem parseKvFields_quoted {after : Text} (hkey : '=' ∉ key) (hquote : after.head? = some '"')
    (hread : takeQuoted after = some (value, [])) :
    parseKvFields (fuel + 1) (key ++ '=' :: after) = [(trim key, value)] := by
  rw [parseKvFields, splitOnceChar_append hkey]
  dsimp only
  rw [if_pos hquote, show parseDebugString after = some (value, []) from hread]
  exact congrArg _ (parseKvFields_nil fuel)

theorem mem_of_foldl_setField (get : LogEntry → Option Text) {key value : Text}
    (hget : ∀ entry field, get (setField entry field) =
      if field.1 = key then some field.2 else get entry)
    {fields : List (Text × Text)} {entry : LogEntry} (hnone : get entry = none)
    (h : get (fields.foldl setField entry) = some value) : (key, value) ∈ fields := by
  induction fields using List.reverseRecOn with
  | nil =>
    rw [List.foldl_nil, hnone] at h
    cases h
  | append_singleton fields field ih =>
    rw [List.foldl_append, List.foldl_cons, List.foldl_nil, hget] at h
    split at h
    · rename_i hkey
      rw [← hkey, ← Option.some.inj h]
      exact List.mem_append_right _ List.mem_cons_self
    · exact List.mem_append_left _ (ih h)

theorem setField_model (entry : LogEntry) (field : Text × Text) :
    (setField entry field).model =
      if field.1 = "model".toList then some field.2 else entry.model := by
  by_cases hkey : field.1 = "model".toList
  · rw [if_pos hkey, setField, hkey]
    rfl
  · rw [if_neg hkey, setField]
    split_ifs <;> rfl

theorem setField_error (entry : LogEntry) (field : Text × Text) :
    (setField entry field).error =
      if field.1 = "error".toList then some field.2 else entry.error := by
  by_cases hkey : field.1 = "error".toList
  · rw [if_pos hkey, setField, hkey]
    rfl
  · rw [if_neg hkey, setField]
    split_ifs <;> rfl

end Fields

end QueQiao.ErrorLogApi
