import QueQiao.Handlers.ErrorLog
import QueQiao.Lib.Patterns

namespace QueQiao.RecordsQuery

open ErrorLogApi Lib.Patterns

/-- `ASCII` case folding, which is that of `NOCASE` and of `LIKE`. -/
def asciiFold (s : Text) : Text := s.map Char.toLower

def maxChar : Char := Char.ofNat 0x10ffff

def prefixUpper (value : Text) : Text := value ++ [maxChar]

/-- `col COLLATE NOCASE >= ? AND col COLLATE NOCASE < ?`, as a model or an IP is asked for. -/
def nocaseRange (value s : Text) : Bool :=
  decide (asciiFold value ≤ asciiFold s) && decide (asciiFold s < asciiFold (prefixUpper value))

def likeContains (value : Text) : Text :=
  '%' :: (value.flatMap fun c ↦ if c = '%' ∨ c = '_' ∨ c = '\\' then ['\\', c] else [c]) ++ ['%']

/-- How `LIKE ? ESCAPE '\'` reads its pattern. -/
def likeWriting : Writing Char := ⟨'%', '_', '\\', by decide⟩

def like (pattern s : Text) : Bool :=
  (likeWriting.parse false pattern).any fun items ↦ reads Char.toLower items s

theorem le_maxChar (c : Char) : c ≤ maxChar := by
  have hvalid := c.valid
  have hmax : maxChar.toNat = 0x10ffff := by decide
  rw [Char.le_def, UInt32.le_iff_toNat_le]
  change c.val.toNat ≤ maxChar.toNat
  rw [hmax]
  rcases hvalid with h | h <;> omega

theorem asciiFold_append (s t : Text) : asciiFold (s ++ t) = asciiFold s ++ asciiFold t :=
  List.map_append

theorem asciiFold_prefixUpper (value : Text) :
    asciiFold (prefixUpper value) = asciiFold value ++ [maxChar] := by
  rw [prefixUpper, asciiFold_append]
  rfl

theorem nocaseRange_iff (value s : Text) :
    nocaseRange value s = true ↔
      ∃ rest, asciiFold s = asciiFold value ++ rest ∧ rest.head? ≠ some maxChar := by
  rw [nocaseRange, Bool.and_eq_true, decide_eq_true_iff, decide_eq_true_iff,
    asciiFold_prefixUpper]
  exact le_and_lt_append_iff le_maxChar

theorem toLower_eq_maxChar {c : Char} (h : c.toLower = maxChar) : c = maxChar := by
  delta Char.toLower at h
  split at h
  · rename_i hupper
    have hval : (c.val.toNat + 32) % 4294967296 = 0x10ffff := congrArg Char.toNat h
    have hle : c.val.toNat ≤ 90 := hupper.2
    omega
  · exact h

theorem nocaseRange_iff_startsWith {s : Text} (h : maxChar ∉ s) (value : Text) :
    nocaseRange value s = true ↔ asciiFold value <+: asciiFold s := by
  rw [nocaseRange_iff]
  constructor
  · intro ⟨rest, hs, _⟩
    exact ⟨rest, hs.symm⟩
  · intro ⟨rest, hs⟩
    refine ⟨rest, hs.symm, fun hhead ↦ h ?_⟩
    have hmem : maxChar ∈ asciiFold s := by
      rw [← hs]
      exact List.mem_append_right _ (List.mem_of_mem_head? hhead)
    obtain ⟨c, hc, hlower⟩ := List.mem_map.mp hmem
    exact toLower_eq_maxChar hlower ▸ hc

theorem like_likeContains (needle s : Text) :
    like (likeContains needle) s = true ↔ asciiFold needle <:+: asciiFold s := by
  have hparse : likeWriting.parse false (likeContains needle) =
      some (.run :: (needle.map .only ++ [.run])) := likeWriting.parse_contains
  rw [like, hparse]
  exact reads_contains Char.toLower

/-- The range of a filter holds the texts that start with it, and its pattern matches the texts
that contain it, both up to `ASCII` case and whatever symbols it has. -/
theorem text_filters_exact (value needle text : Text) {s : Text} (hs : maxChar ∉ s) :
    (nocaseRange value s = true ↔ asciiFold value <+: asciiFold s) ∧
      (like (likeContains needle) text = true ↔ asciiFold needle <:+: asciiFold text) :=
  ⟨nocaseRange_iff_startsWith hs value, like_likeContains needle text⟩

theorem text_filters_exact_example :
    maxChar ∉ "gpt-4o".toList ∧
      (nocaseRange "GPT".toList "gpt-4o".toList = true ↔
        asciiFold "GPT".toList <+: asciiFold "gpt-4o".toList) ∧
      (like (likeContains "0%_".toList) "50%_off".toList = true ↔
        asciiFold "0%_".toList <:+: asciiFold "50%_off".toList) :=
  ⟨by decide, text_filters_exact "GPT".toList "0%_".toList "50%_off".toList (by decide)⟩

example : like (likeContains "0%_".toList) "50%_off".toList = true := by decide

example : like (likeContains "0%_".toList) "50 off".toList = false := by decide

end QueQiao.RecordsQuery
