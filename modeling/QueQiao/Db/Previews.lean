import QueQiao.Db.SessionFingerprint
import QueQiao.Lib.ByteIndex

namespace QueQiao.Previews

open Lib.ByteIndex SessionFingerprint

def omittedNote (omitted : ℕ) : Chars := s!"…[+{omitted} bytes]".toList

def truncateHead (s : Chars) (max : ℕ) : Except Fault Chars :=
  if byteLen s ≤ max then .ok s
  else do
    let stop := boundaryDown s max
    let head ← sliceTo s stop
    let omitted ← checkedSub (byteLen s) stop
    pure (head ++ omittedNote omitted)

def truncateHeadTail (s : Chars) (max : ℕ) : Except Fault Chars :=
  if byteLen s ≤ max then .ok s
  else do
    -- the product wraps in a release build
    let head := max * 3 % 2 ^ 64 / 4
    let tail ← checkedSub max head
    let headEnd := boundaryDown s head
    let start ← checkedSub (byteLen s) tail
    let tailStart := boundaryUp s start
    let omitted ← checkedSub tailStart headEnd
    let front ← sliceTo s headEnd
    let back ← sliceFrom s tailStart
    pure (front ++ omittedNote omitted ++ '…' :: back)

def headBytes (value : Chars) (limit : ℕ) : Except Fault Chars :=
  if limit = 0 ∨ byteLen value ≤ limit then .ok value
  else do
    let stop ← lastBoundary value limit
    sliceTo value stop

def tailBytes (value : Chars) (limit : ℕ) : Except Fault Chars :=
  if limit = 0 ∨ byteLen value ≤ limit then .ok value
  else do
    let start ← checkedSub (byteLen value) limit
    let start ← nextBoundary value start
    sliceFrom value start

def cappedTextAt (render : Json → String) (value : Json) : Except Fault String :=
  let raw := value.asStr.getD (render value)
  if byteLen raw.toList ≤ fieldByteCap then .ok raw
  else do
    let kept ← sliceTo raw.toList (boundaryDown raw.toList fieldByteCap)
    pure (String.ofList kept)

section Cuts

variable {s : Chars} {n : ℕ}

theorem sliceTo_boundaryDown (s : Chars) (n : ℕ) :
    ∃ a b, s = a ++ b ∧ byteLen a ≤ n ∧ boundaryDown s n = byteLen a ∧
      sliceTo s (boundaryDown s n) = .ok a := by
  obtain ⟨a, b, rfl, heq, hle⟩ := exists_boundaryDown s n
  exact ⟨a, b, rfl, hle, heq, by rw [heq, sliceTo_append]⟩

theorem sliceFrom_boundaryUp (hn : n ≤ byteLen s) :
    ∃ a b, s = a ++ b ∧ byteLen b ≤ n ∧ boundaryUp s (byteLen s - n) = byteLen a ∧
      sliceFrom s (boundaryUp s (byteLen s - n)) = .ok b := by
  obtain ⟨a, b, rfl, heq, hle⟩ := exists_boundaryUp (Nat.sub_le (byteLen s) n)
  refine ⟨a, b, rfl, ?_, heq, by rw [heq, sliceFrom_append]⟩
  rw [byteLen_append] at hle hn
  omega

theorem truncateHead_spec (s : Chars) (max : ℕ) :
    byteLen s ≤ max ∧ truncateHead s max = .ok s ∨
      max < byteLen s ∧ ∃ a b, s = a ++ b ∧ byteLen a ≤ max ∧
        truncateHead s max = .ok (a ++ omittedNote (byteLen b)) := by
  by_cases hfits : byteLen s ≤ max
  · exact .inl ⟨hfits, if_pos hfits⟩
  · obtain ⟨a, b, hs, hle, hstop, hslice⟩ := sliceTo_boundaryDown s max
    refine .inr ⟨Nat.lt_of_not_le hfits, a, b, hs, hle, ?_⟩
    have hlen : byteLen s = byteLen b + byteLen a := by
      rw [hs, byteLen_append, Nat.add_comm]
    rw [truncateHead, if_neg hfits]
    simp only [hslice, ok_bind]
    rw [hstop, hlen, checkedSub_add, ok_bind]
    rfl

theorem exists_middle {a b c d : Chars} (h : a ++ b = c ++ d) (hle : byteLen a ≤ byteLen c) :
    ∃ m, c = a ++ m ∧ b = m ++ d := by
  rcases List.append_eq_append_iff.mp h with ⟨m, hc, hb⟩ | ⟨m, ha, hd⟩
  · exact ⟨m, hc, hb⟩
  · rw [ha, byteLen_append] at hle
    have hm : m = [] := by
      have hlength := length_le_byteLen m
      exact List.eq_nil_of_length_eq_zero (by omega)
    rw [hm, List.append_nil] at ha
    rw [hm, List.nil_append] at hd
    exact ⟨[], by rw [ha, List.append_nil], hd.symm⟩

theorem truncateHeadTail_spec (s : Chars) (max : ℕ) :
    byteLen s ≤ max ∧ truncateHeadTail s max = .ok s ∨
      max < byteLen s ∧ ∃ a m c, s = a ++ (m ++ c) ∧ byteLen a + byteLen c ≤ max ∧
        truncateHeadTail s max = .ok (a ++ omittedNote (byteLen m) ++ '…' :: c) := by
  by_cases hfits : byteLen s ≤ max
  · exact .inl ⟨hfits, if_pos hfits⟩
  · have hhead : max * 3 % 2 ^ 64 / 4 ≤ max := by
      have hmod := Nat.mod_le (max * 3) (2 ^ 64)
      omega
    rw [truncateHeadTail, if_neg hfits]
    generalize max * 3 % 2 ^ 64 / 4 = head at hhead ⊢
    have htail : max - head ≤ byteLen s := by omega
    obtain ⟨a, b, hs, ha, hstop, hto⟩ := sliceTo_boundaryDown s head
    obtain ⟨d, c, hs', hc, hstart, hfrom⟩ := sliceFrom_boundaryUp htail
    have hd : byteLen a ≤ byteLen d := by
      have hlen : byteLen s = byteLen d + byteLen c := by rw [hs', byteLen_append]
      omega
    obtain ⟨m, rfl, hb⟩ := exists_middle (hs.symm.trans hs') hd
    refine .inr ⟨Nat.lt_of_not_le hfits, a, m, c, by rw [hs, hb], by omega, ?_⟩
    simp only [checkedSub_of_le hhead, checkedSub_of_le htail, hto, hfrom, ok_bind]
    rw [hstop, hstart, byteLen_append, Nat.add_comm, checkedSub_add, ok_bind]
    rfl

theorem headBytes_spec (value : Chars) (limit : ℕ) :
    ∃ a b, value = a ++ b ∧ headBytes value limit = .ok a ∧ (limit ≠ 0 → byteLen a ≤ limit) ∧
      (limit = 0 ∨ byteLen value ≤ limit → b = []) := by
  by_cases hwhole : limit = 0 ∨ byteLen value ≤ limit
  · refine ⟨value, [], (List.append_nil _).symm, if_pos hwhole, ?_, fun _ ↦ rfl⟩
    exact fun hlimit ↦ hwhole.resolve_left hlimit
  · obtain ⟨a, b, hs, hle, -, hslice⟩ := sliceTo_boundaryDown value limit
    refine ⟨a, b, hs, ?_, fun _ ↦ hle, fun h ↦ absurd h hwhole⟩
    rw [headBytes, if_neg hwhole, lastBoundary_eq, ok_bind, hslice]

theorem tailBytes_spec (value : Chars) (limit : ℕ) :
    ∃ a b, value = a ++ b ∧ tailBytes value limit = .ok b ∧ (limit ≠ 0 → byteLen b ≤ limit) ∧
      (limit = 0 ∨ byteLen value ≤ limit → a = []) := by
  by_cases hwhole : limit = 0 ∨ byteLen value ≤ limit
  · refine ⟨[], value, rfl, if_pos hwhole, ?_, fun _ ↦ rfl⟩
    exact fun hlimit ↦ hwhole.resolve_left hlimit
  · have hlimit : limit ≤ byteLen value := by omega
    obtain ⟨a, b, hs, hle, -, hslice⟩ := sliceFrom_boundaryUp hlimit
    refine ⟨a, b, hs, ?_, fun _ ↦ hle, fun h ↦ absurd h hwhole⟩
    rw [tailBytes, if_neg hwhole, checkedSub_of_le hlimit, ok_bind,
      nextBoundary_eq (Nat.sub_le _ _), ok_bind, hslice]

variable (render : Json → String) (value : Json)

theorem takeBytes_eq (n : ℕ) (s : Chars) : takeBytes n s = takeFit n s := by
  induction s generalizing n with
  | nil => rfl
  | cons c s ih => rw [takeBytes, takeFit, ih]

theorem cappedTextAt_eq : cappedTextAt render value = .ok (cappedText render value) := by
  rw [cappedTextAt, cappedText]
  generalize value.asStr.getD (render value) = raw
  rw [← byteLen_toList]
  by_cases hfits : byteLen raw.toList ≤ fieldByteCap
  · exact (if_pos hfits).trans (congrArg Except.ok (if_pos hfits).symm)
  · have hto := sliceTo_takeFit (Nat.lt_of_not_le hfits)
    simp only [if_neg hfits, hto, takeBytes_eq]
    rfl

theorem cappedTextAt_spec :
    ∃ a b, (value.asStr.getD (render value)).toList = a ++ b ∧ byteLen a ≤ fieldByteCap ∧
      cappedTextAt render value = .ok (String.ofList a) ∧
      (byteLen (value.asStr.getD (render value)).toList ≤ fieldByteCap → b = []) := by
  rw [cappedTextAt]
  generalize value.asStr.getD (render value) = raw
  by_cases hfits : byteLen raw.toList ≤ fieldByteCap
  · refine ⟨raw.toList, [], (List.append_nil _).symm, hfits, ?_, fun _ ↦ rfl⟩
    rw [String.ofList_toList]
    exact if_pos hfits
  · obtain ⟨a, b, hraw, hle, -, hslice⟩ := sliceTo_boundaryDown raw.toList fieldByteCap
    refine ⟨a, b, hraw, hle, ?_, fun h ↦ absurd h hfits⟩
    simp only [if_neg hfits, hslice, ok_bind]
    rfl

end Cuts

/-- The cuts are between characters, what is kept is within the limit, and with what is reported to
be left out it is the whole text. A limit of zero is none for `head_bytes` and `tail_bytes`. -/
theorem previews_account :
    (∀ s max, byteLen s ≤ max ∧ truncateHead s max = .ok s ∨
      max < byteLen s ∧ ∃ a b, s = a ++ b ∧ byteLen a ≤ max ∧
        truncateHead s max = .ok (a ++ omittedNote (byteLen b))) ∧
    (∀ s max, byteLen s ≤ max ∧ truncateHeadTail s max = .ok s ∨
      max < byteLen s ∧ ∃ a m c, s = a ++ (m ++ c) ∧ byteLen a + byteLen c ≤ max ∧
        truncateHeadTail s max = .ok (a ++ omittedNote (byteLen m) ++ '…' :: c)) ∧
    (∀ value limit, ∃ a b, value = a ++ b ∧ headBytes value limit = .ok a ∧
      (limit ≠ 0 → byteLen a ≤ limit) ∧ (limit = 0 ∨ byteLen value ≤ limit → b = [])) ∧
    (∀ value limit, ∃ a b, value = a ++ b ∧ tailBytes value limit = .ok b ∧
      (limit ≠ 0 → byteLen b ≤ limit) ∧ (limit = 0 ∨ byteLen value ≤ limit → a = [])) ∧
    ∀ (render : Json → String) (value : Json),
      cappedTextAt render value = .ok (cappedText render value) ∧
      ∃ a b, (value.asStr.getD (render value)).toList = a ++ b ∧ byteLen a ≤ fieldByteCap ∧
        cappedTextAt render value = .ok (String.ofList a) ∧
        (byteLen (value.asStr.getD (render value)).toList ≤ fieldByteCap → b = []) :=
  ⟨truncateHead_spec, truncateHeadTail_spec, headBytes_spec, tailBytes_spec,
    fun render value ↦ ⟨cappedTextAt_eq render value, cappedTextAt_spec render value⟩⟩

theorem headBytes_exceeds :
    ¬∀ value limit, ∃ kept, headBytes value limit = .ok kept ∧ byteLen kept ≤ limit := by
  intro h
  obtain ⟨kept, hkept, hle⟩ := h ['a'] 0
  cases hkept
  exact absurd hle (by decide)

example : truncateHeadTail "aéb".toList 3 = .ok "a…[+2 bytes]…b".toList := by decide +kernel

end QueQiao.Previews
