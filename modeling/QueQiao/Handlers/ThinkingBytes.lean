import QueQiao.Handlers.ThinkingTransformer
import QueQiao.Lib.ByteIndex

/-! `parse_content_source` over the bytes of a text: the indices and slices as they are taken, with
the faults that they come to. -/

namespace QueQiao.ThinkingTransformer

open Lib.ByteIndex Lib.Delimiters

section Overlap

variable {marker s : Chars}

theorem overlap_bytes (h : Ascii marker) (hne : marker ≠ []) :
    overlap (bytes marker) (bytes s) = overlap marker s := by
  have hlength : (bytes marker).length = marker.length := by
    rw [length_bytes, byteLen_of_ascii h]
  have hbytes : bytes marker ≠ [] := by
    rw [← List.length_pos_iff, hlength]
    exact List.length_pos_iff.mpr hne
  apply le_antisymm
  · obtain ⟨t, ht, hsuffix, hprefix⟩ := exists_suffix_of_bytes h
      (List.drop_suffix ((bytes s).length - overlap (bytes marker) (bytes s)) (bytes s))
      drop_overlap_prefix
    have hle : overlap (bytes marker) (bytes s) ≤ (bytes s).length := overlap_le
    have hlt : overlap (bytes marker) (bytes s) < (bytes marker).length := overlap_lt hbytes
    have hlen : t.length = overlap (bytes marker) (bytes s) := by
      rw [← byteLen_of_ascii (h.of_prefix hprefix), ← length_bytes, ht, List.length_drop]
      omega
    rw [← hlen] at hlt ⊢
    refine le_overlap hsuffix.length_le (by omega) ?_
    rwa [← List.suffix_iff_eq_drop.mp hsuffix]
  · have hle : overlap marker s ≤ s.length := overlap_le
    have hlt : overlap marker s < marker.length := overlap_lt hne
    have hpre : s.drop (s.length - overlap marker s) <+: marker := drop_overlap_prefix
    have hsuffix := bytes_suffix (List.drop_suffix (s.length - overlap marker s) s)
    have hlen : (bytes (s.drop (s.length - overlap marker s))).length = overlap marker s := by
      rw [length_bytes, byteLen_of_ascii (h.of_prefix hpre), List.length_drop]
      omega
    refine le_overlap (hlen ▸ hsuffix.length_le) (by omega) ?_
    have hdrop := List.suffix_iff_eq_drop.mp hsuffix
    rw [hlen] at hdrop
    rw [← hdrop]
    exact (bytes_prefix_iff h).mpr hpre

end Overlap

section Loop

def lastBytes (b : List UInt8) (k : ℕ) : Except Fault (List UInt8) :=
  if k ≤ b.length then .ok (b.drop (b.length - k)) else .error .outOfBounds

def firstBytes (b : List UInt8) (k : ℕ) : Except Fault (List UInt8) :=
  if k ≤ b.length then .ok (b.take k) else .error .outOfBounds

/-- The loop of `partial_marker_len` from `k` down. -/
def searchMarker (sb mb : List UInt8) : ℕ → Except Fault ℕ
  | 0 => .ok 0
  | k + 1 => do
    let last ← lastBytes sb (k + 1)
    let first ← firstBytes mb (k + 1)
    if last = first then pure (k + 1) else searchMarker sb mb k

def partialMarkerLenAt (s marker : Chars) : Except Fault ℕ :=
  let sb := bytes s
  let mb := bytes marker
  searchMarker sb mb (min sb.length (mb.length - 1))

def findTag (tag rest : Chars) : Option ℕ :=
  (findSub tag rest).map fun i ↦ byteLen (rest.take i)

/-- One round of the loop of `parse_content_source`: what it puts out, what is left, and whether the
tag has been found. -/
def parseRound (tag rest : Chars) : Except Fault (Chars × Chars × Bool) :=
  match findTag tag rest with
  | some i => do
    let text ← sliceTo rest i
    let left ← sliceFrom rest (i + byteLen tag)
    pure (text, left, true)
  | none => do
    let k ← partialMarkerLenAt rest tag
    let cut ← checkedSub (byteLen rest) k
    let text ← sliceTo rest cut
    let left ← sliceFrom rest cut
    pure (text, left, false)

variable {tag rest text left : Chars} {i : ℕ}

theorem searchMarker_eq {sb mb : List UInt8} {n : ℕ} (hs : n ≤ sb.length) (hm : n ≤ mb.length) :
    searchMarker sb mb n =
      .ok (Nat.findGreatest (fun k ↦ sb.drop (sb.length - k) = mb.take k) n) := by
  induction n with
  | zero => rfl
  | succ n ih =>
    rw [searchMarker, lastBytes, if_pos hs, firstBytes, if_pos hm, Nat.findGreatest_succ,
      ih (Nat.le_of_succ_le hs) (Nat.le_of_succ_le hm), apply_ite Except.ok]
    rfl

theorem partialMarkerLenAt_eq {s marker : Chars} (h : Ascii marker) (hne : marker ≠ []) :
    partialMarkerLenAt s marker = .ok (overlap marker s) := by
  rw [partialMarkerLenAt, searchMarker_eq (Nat.min_le_left _ _), ← overlap_bytes h hne, overlap]
  exact (Nat.min_le_right _ _).trans (Nat.sub_le _ _)

theorem parseRound_of_some (h : findSub tag rest = some i) :
    parseRound tag rest = .ok (rest.take i, rest.drop (i + tag.length), true) := by
  have hsplit := findSub_split h
  have hto := sliceTo_append (rest.take i) (tag ++ rest.drop (i + tag.length))
  have hfrom := sliceFrom_append (rest.take i ++ tag) (rest.drop (i + tag.length))
  rw [List.append_assoc, byteLen_append] at hfrom
  rw [← hsplit] at hto hfrom
  rw [parseRound, findTag, h]
  simp only [Option.map_some, hto, hfrom, ok_bind]
  rfl

theorem byteLen_drop_overlap (htag : Ascii tag) :
    byteLen (rest.drop (rest.length - overlap tag rest)) = overlap tag rest := by
  have hle : overlap tag rest ≤ rest.length := overlap_le
  rw [byteLen_of_ascii (htag.of_prefix drop_overlap_prefix), List.length_drop]
  omega

theorem parseRound_of_none (htag : Ascii tag) (hne : tag ≠ []) (h : findSub tag rest = none) :
    parseRound tag rest =
      .ok (rest.take (rest.length - overlap tag rest),
        rest.drop (rest.length - overlap tag rest), false) := by
  have hheld : byteLen (rest.drop (rest.length - overlap tag rest)) = overlap tag rest :=
    byteLen_drop_overlap htag
  generalize rest.length - overlap tag rest = cut at hheld ⊢
  have hlen : byteLen rest = byteLen (rest.take cut) + byteLen (rest.drop cut) := by
    rw [← byteLen_append, List.take_append_drop]
  have hto := sliceTo_append (rest.take cut) (rest.drop cut)
  have hfrom := sliceFrom_append (rest.take cut) (rest.drop cut)
  rw [List.take_append_drop] at hto hfrom
  rw [parseRound, findTag, h]
  simp only [Option.map_none, partialMarkerLenAt_eq htag hne, ok_bind]
  rw [hlen, hheld, checkedSub_add, ok_bind, hto, ok_bind, hfrom, ok_bind]
  rfl

theorem length_lt_of_parseRound (htag : Ascii tag) (hne : tag ≠ [])
    (h : parseRound tag rest = .ok (text, left, true)) : left.length < rest.length := by
  have hpos := List.length_pos_iff.mpr hne
  cases hfind : findSub tag rest with
  | none =>
    rw [parseRound_of_none htag hne hfind] at h
    cases h
  | some i =>
    rw [parseRound_of_some hfind] at h
    cases h
    have hle := (findSub_eq_some_iff.mp hfind).2.1.length_le
    rw [List.length_drop] at hle ⊢
    omega

theorem ascii_openTag : Ascii openTag := by decide

theorem ascii_closeTag : Ascii closeTag := by decide

/-- The loop of `parse_content_source`: the two outputs, and the phase and carry it ends with. -/
def parseLoopAt (phase : Phase) (rest contentOut reasoningOut : Chars) :
    Except Fault ((Chars × Chars) × Phase × Chars) :=
  match phase with
  | .content =>
    match _h : parseRound openTag rest with
    | .error fault => .error fault
    | .ok (text, left, true) => parseLoopAt .inThink left (contentOut ++ text) reasoningOut
    | .ok (text, left, false) => .ok ((contentOut ++ text, reasoningOut), .content, left)
  | .inThink =>
    match _h : parseRound closeTag rest with
    | .error fault => .error fault
    | .ok (text, left, true) => parseLoopAt .content left contentOut (reasoningOut ++ text)
    | .ok (text, left, false) => .ok ((contentOut, reasoningOut ++ text), .inThink, left)
termination_by rest.length
decreasing_by
  · exact length_lt_of_parseRound ascii_openTag openTag_ne_nil _h
  · exact length_lt_of_parseRound ascii_closeTag closeTag_ne_nil _h

open ThinkingStreamTransformer

def parseContentSourceAt (fragment : String) (t : ThinkingStreamTransformer) :
    Except Fault ((String × String) × ThinkingStreamTransformer) := do
  let combined := t.carry ++ fragment.toList
  let r ← parseLoopAt t.phase combined [] []
  pure ((String.ofList r.1.1, String.ofList r.1.2), { t with phase := r.2.1, carry := r.2.2 })

theorem parseLoopAt_content (rest contentOut reasoningOut : Chars) :
    parseLoopAt .content rest contentOut reasoningOut =
      (parseRound openTag rest).bind fun r ↦
        if r.2.2 then parseLoopAt .inThink r.2.1 (contentOut ++ r.1) reasoningOut
        else .ok ((contentOut ++ r.1, reasoningOut), .content, r.2.1) := by
  rw [parseLoopAt]
  split
  all_goals
    rename_i heq
    rw [heq]
    rfl

theorem parseLoopAt_inThink (rest contentOut reasoningOut : Chars) :
    parseLoopAt .inThink rest contentOut reasoningOut =
      (parseRound closeTag rest).bind fun r ↦
        if r.2.2 then parseLoopAt .content r.2.1 contentOut (reasoningOut ++ r.1)
        else .ok ((contentOut, reasoningOut ++ r.1), .inThink, r.2.1) := by
  rw [parseLoopAt]
  split
  all_goals
    rename_i heq
    rw [heq]
    rfl

theorem parseLoopAt_eq (phase : Phase) (rest contentOut reasoningOut : Chars) :
    parseLoopAt phase rest contentOut reasoningOut =
      .ok (parseLoop phase rest contentOut reasoningOut) := by
  fun_induction parseLoop with
  | case1 rest contentOut reasoningOut i hf ih =>
    rw [parseLoopAt_content, parseRound_of_some hf]
    exact ih
  | case2 rest contentOut reasoningOut hf k cut =>
    rw [parseLoopAt_content, parseRound_of_none ascii_openTag openTag_ne_nil hf]
    rfl
  | case3 rest contentOut reasoningOut j hf ih =>
    rw [parseLoopAt_inThink, parseRound_of_some hf]
    exact ih
  | case4 rest contentOut reasoningOut hf k cut =>
    rw [parseLoopAt_inThink, parseRound_of_none ascii_closeTag closeTag_ne_nil hf]
    rfl

theorem ascii_mark (phase : Phase) : Ascii (thinkDelims.mark phase) := by
  cases phase with
  | content => exact ascii_openTag
  | inThink => exact ascii_closeTag

/-- What `partial_marker_len` measures is the longest end of a text that starts a marker without
being it, and `parse_content_source` takes its slices between characters: on every text it comes to
what the loop over characters comes to. -/
theorem parseContentSourceAt_eq :
    (∀ (s : Chars) (phase : Phase), ∃ t,
      partialMarkerLenAt s (thinkDelims.mark phase) = .ok (byteLen t) ∧
      t <:+ s ∧ t <+: thinkDelims.mark phase ∧ t ≠ thinkDelims.mark phase ∧
      ∀ u, u <:+ s → u <+: thinkDelims.mark phase → u ≠ thinkDelims.mark phase →
        byteLen u ≤ byteLen t) ∧
    ∀ (fragment : String) (t : ThinkingStreamTransformer),
      parseContentSourceAt fragment t = .ok (t.parseContentSource fragment) := by
  constructor
  · intro s phase
    have hascii := ascii_mark phase
    have hne := thinkDelims.mark_ne_nil phase
    generalize thinkDelims.mark phase = marker at hascii hne
    have hpre : s.drop (s.length - overlap marker s) <+: marker := drop_overlap_prefix
    have hlen : byteLen (s.drop (s.length - overlap marker s)) = overlap marker s :=
      byteLen_drop_overlap hascii
    have hlt : overlap marker s < marker.length := overlap_lt hne
    refine ⟨s.drop (s.length - overlap marker s), ?_, List.drop_suffix _ _, hpre, ?_, ?_⟩
    · rw [partialMarkerLenAt_eq hascii hne, hlen]
    · intro heq
      rw [heq, byteLen_of_ascii hascii] at hlen
      omega
    · intro u hsuffix hprefix hproper
      have hshort : u.length < marker.length :=
        lt_of_le_of_ne hprefix.length_le (mt hprefix.eq_of_length hproper)
      rw [hlen, byteLen_of_ascii (hascii.of_prefix hprefix)]
      refine le_overlap hsuffix.length_le hshort ?_
      rwa [← List.suffix_iff_eq_drop.mp hsuffix]
  · intro fragment t
    rw [parseContentSourceAt, parseLoopAt_eq]
    rfl

example : partialMarkerLenAt "é</thi".toList closeTag = .ok 5 := by decide +kernel

end Loop

end QueQiao.ThinkingTransformer
