import QueQiao.Handlers.ModelHandler
import QueQiao.Lib.ByteIndex
import QueQiao.Lib.PrefixCodes

namespace QueQiao.ModelHandler

open Lib.ByteIndex Lib.PrefixCodes

def u64Max : ℕ := 2 ^ 64 - 1

def encodeKey : Option String → List UInt8
  | some key => leBytes 8 (byteLen key.toList) ++ bytes key.toList
  | none => leBytes 8 u64Max

def encodeEffectiveKeys (keys : List (Option String)) : List UInt8 :=
  leBytes 8 keys.length ++ keys.flatMap encodeKey

/-- The length of a key cannot be taken for the mark of an absent one. -/
def Short (key : Option String) : Prop := ∀ k ∈ key, byteLen k.toList < u64Max

instance (key : Option String) : Decidable (Short key) :=
  inferInstanceAs (Decidable (∀ k ∈ key, byteLen k.toList < u64Max))

section Encoding

def keyMark : Option String → ℕ
  | some key => byteLen key.toList
  | none => u64Max

def keyText : Option String → List UInt8
  | some key => bytes key.toList
  | none => []

theorem encodeKey_eq (key : Option String) :
    encodeKey key = leBytes 8 (keyMark key) ++ keyText key := by
  cases key with
  | none => exact (List.append_nil _).symm
  | some key => rfl

variable {key key' : Option String}

theorem keyMark_lt (h : Short key) : keyMark key < 256 ^ 8 := by
  have hmax : u64Max < 256 ^ 8 := by decide
  cases key with
  | none => exact hmax
  | some key => exact (h key rfl).trans hmax

theorem keyMark_eq_none (h : Short key) (hmark : keyMark key = u64Max) : key = none := by
  cases key with
  | none => rfl
  | some key => exact absurd hmark (h key rfl).ne

theorem length_keyText (h : Short key) (h' : Short key') (hmark : keyMark key = keyMark key') :
    (keyText key).length = (keyText key').length := by
  cases key with
  | none => rw [keyMark_eq_none h' hmark.symm]
  | some key =>
    cases key' with
    | none => cases keyMark_eq_none h hmark
    | some key' =>
      rw [keyText, keyText, length_bytes, length_bytes]
      exact hmark

theorem keyText_inj (h : Short key) (h' : Short key') (hmark : keyMark key = keyMark key')
    (htext : keyText key = keyText key') : key = key' := by
  cases key with
  | none => exact (keyMark_eq_none h' hmark.symm).symm
  | some key =>
    cases key' with
    | none => exact keyMark_eq_none h hmark
    | some key' => exact congrArg some (String.toList_injective (bytes_injective htext))

theorem selfDelimiting_encodeKey : SelfDelimiting Short encodeKey := by
  rw [funext encodeKey_eq]
  exact (selfDelimiting_leBytes 8).header (fun _ ↦ keyMark_lt) (fun _ _ ↦ length_keyText)
    fun _ _ ↦ keyText_inj

theorem encodeKey_ne_nil (key : Option String) : encodeKey key ≠ [] := by
  rw [encodeKey_eq]
  exact List.append_ne_nil_of_left_ne_nil (List.cons_ne_nil _ _) _

theorem eq_of_encodeEffectiveKeys {keys keys' : List (Option String)}
    (h : ∀ key ∈ keys, Short key) (h' : ∀ key ∈ keys', Short key)
    (heq : encodeEffectiveKeys keys = encodeEffectiveKeys keys') : keys = keys' := by
  have hlength := (length_leBytes 8 keys.length).trans (length_leBytes 8 keys'.length).symm
  obtain ⟨-, hkeys⟩ := List.append_inj heq hlength
  exact selfDelimiting_encodeKey.flatMap_inj encodeKey_ne_nil h h' hkeys

end Encoding

section Fingerprint

-- the hash of the fingerprints, and the salt of the cache
variable {δ : Type} (sha256 : List UInt8 → δ) (salt : List UInt8)

def fingerprint : Option (List UInt8) → δ
  | some credential => sha256 (salt ++ credential)
  | none => sha256 (salt ++ bytes "\x00NO_CREDENTIAL".toList)

def makeKey (generation : ℕ) (keys : List (Option String)) : Key δ where
  generation := generation
  credential := fingerprint sha256 salt (some (encodeEffectiveKeys keys))

def Collides (x y : List UInt8) : Prop := x ≠ y ∧ sha256 x = sha256 y

end Fingerprint

/-- Equal encodings are those of equal keys, so that only a collision of the hash lets requests with
other keys for the upstreams come to one entry of the cache. -/
theorem encodeEffectiveKeys_injective {keys keys' : List (Option String)}
    (h : ∀ key ∈ keys, Short key) (h' : ∀ key ∈ keys', Short key) :
    (encodeEffectiveKeys keys = encodeEffectiveKeys keys' → keys = keys') ∧
    ∀ {δ : Type} (sha256 : List UInt8 → δ) (salt : List UInt8) (generation generation' : ℕ),
      makeKey sha256 salt generation keys = makeKey sha256 salt generation' keys' →
        generation = generation' ∧
          (keys = keys' ∨ Collides sha256 (salt ++ encodeEffectiveKeys keys)
            (salt ++ encodeEffectiveKeys keys')) := by
  refine ⟨eq_of_encodeEffectiveKeys h h', ?_⟩
  intro δ sha256 salt generation generation' heq
  obtain ⟨hgeneration, hhash⟩ := Key.mk.inj heq
  refine ⟨hgeneration, ?_⟩
  by_cases hkeys : keys = keys'
  · exact .inl hkeys
  · refine .inr ⟨fun hsalted ↦ hkeys ?_, hhash⟩
    exact eq_of_encodeEffectiveKeys h h' (List.append_cancel_left hsalted)

theorem encodeEffectiveKeys_split :
    encodeEffectiveKeys [some "ab", some "c"] ≠ encodeEffectiveKeys [some "a", some "bc"] ∧
      makeKey id (.replicate 32 7) 1 [none] ≠ makeKey id (.replicate 32 7) 1 [some ""] := by
  constructor
  · intro heq
    have hkeys := (encodeEffectiveKeys_injective (by decide) (by decide)).1 heq
    exact absurd hkeys (by decide)
  · intro heq
    obtain ⟨-, hkeys | hcollides⟩ :=
      (encodeEffectiveKeys_injective (by decide) (by decide)).2 id (.replicate 32 7) 1 1 heq
    · exact absurd hkeys (by decide)
    · exact hcollides.1 hcollides.2

end QueQiao.ModelHandler
