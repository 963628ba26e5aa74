import QueQiao.Lib.Lines

namespace QueQiao.ErrorLogApi

open Lib.Lines

def chunkBytes : ℕ := 64 * 1024

def newline : UInt8 := 10

/-- The loop that reads backwards from `start`; `buf` are the bytes from there on. -/
def readBackwards (file : List UInt8) (limit start : ℕ) (buf : List UInt8) : ℕ × List UInt8 :=
  if start = 0 then (start, buf)
  else
    let readLen := min chunkBytes start
    let from_ := start - readLen
    let chunk := (file.drop from_).take readLen
    let buf := chunk ++ buf
    if limit < buf.count newline then (from_, buf) else readBackwards file limit from_ buf
termination_by start
decreasing_by
  have hpos : 0 < chunkBytes := by decide
  omega

/-- The loop over the bytes of the buffer, at position `i`, and where the last segment starts. -/
def segmentsFrom (i segStart : ℕ) : List UInt8 → List (ℕ × ℕ) × ℕ
  | [] => ([], segStart)
  | b :: rest =>
    if b = newline then
      let (segs, last) := segmentsFrom (i + 1) (i + 1) rest
      ((segStart, i) :: segs, last)
    else segmentsFrom (i + 1) segStart rest

section Tail

-- `String::from_utf8_lossy`
variable (fromUtf8Lossy : List UInt8 → String) (file : List UInt8)

def readTailLines (before : Option ℕ) (limit : ℕ) : List String × Option ℕ :=
  let size := file.length
  let end_ := (before.map (min · size)).getD size
  let (start, buf) := readBackwards file limit end_ []
  let startsAtBoundary := start = 0 || file[start - 1]? = some newline
  let (segs, segStart) := segmentsFrom 0 0 buf
  let hadTrailing := decide (segStart < buf.length)
  let segs := if hadTrailing then segs ++ [(segStart, buf.length)] else segs
  let segs := if !startsAtBoundary then segs.drop 1 else segs
  let segs := if hadTrailing && end_ < size then segs.dropLast else segs
  let take := min limit segs.length
  let chosen := segs.drop (segs.length - take)
  let lines := chosen.map fun segment ↦ fromUtf8Lossy (slice buf segment)
  let nextBefore := (chosen.head?.map fun segment ↦ start + segment.1).filter fun offset ↦ 0 < offset
  (lines.reverse, nextBefore)

/-- The lines of at most `fuel` pages, each read from the offset that the one before returned. -/
def followPages (limit : ℕ) : ℕ → Option ℕ → Option (List String)
  | 0, _ => none
  | fuel + 1, before =>
    match readTailLines fromUtf8Lossy file before limit with
    | (page, none) => some page
    | (page, some offset) => (followPages limit fuel (some offset)).map (page ++ ·)

end Tail

section Reading

variable {file : List UInt8} {limit : ℕ}

structure Read (file : List UInt8) (limit end_ : ℕ) (r : ℕ × List UInt8) : Prop where
  le : r.1 ≤ end_
  buf : r.2 = (file.take end_).drop r.1
  enough : r.1 = 0 ∨ limit < r.2.count newline

theorem Read.length {start end_ : ℕ} {buf : List UInt8} (h : Read file limit end_ (start, buf))
    (hle : end_ ≤ file.length) : buf.length = end_ - start := by
  have hbuf : buf = (file.take end_).drop start := h.buf
  rw [hbuf, List.length_drop, List.length_take, Nat.min_eq_left hle]

theorem take_drop_append {start end_ read : ℕ} (hread : read ≤ start) (hle : start ≤ end_) :
    (file.drop (start - read)).take read ++ (file.take end_).drop start =
      (file.take end_).drop (start - read) := by
  have hsplit := List.take_append_drop read ((file.take end_).drop (start - read))
  rw [List.drop_drop, Nat.sub_add_cancel hread, List.drop_take, List.take_take,
    Nat.min_eq_left (by omega)] at hsplit
  rw [hsplit, List.drop_take]

theorem readBackwards_read {start end_ : ℕ} {buf : List UInt8} (hle : start ≤ end_)
    (hbuf : buf = (file.take end_).drop start) :
    Read file limit end_ (readBackwards file limit start buf) := by
  induction start, buf using readBackwards.induct file limit with
  | case1 buf =>
    rw [readBackwards, if_pos rfl]
    exact ⟨hle, hbuf, .inl rfl⟩
  | case2 start buf hstart readLen from_ chunk next hcount =>
    rw [readBackwards, if_neg hstart]
    dsimp only
    rw [if_pos hcount]
    refine ⟨Nat.le_trans (Nat.sub_le _ _) hle, ?_, .inr hcount⟩
    rw [hbuf]
    exact take_drop_append (Nat.min_le_right _ _) hle
  | case3 start buf hstart readLen from_ chunk next hcount ih =>
    rw [readBackwards, if_neg hstart]
    dsimp only
    rw [if_neg hcount]
    apply ih (Nat.le_trans (Nat.sub_le _ _) hle)
    show chunk ++ buf = _
    rw [hbuf]
    exact take_drop_append (Nat.min_le_right _ _) hle

end Reading

section Splitting

variable {buf : List UInt8}

def allSegments (buf : List UInt8) (r : List (ℕ × ℕ) × ℕ) : List (ℕ × ℕ) :=
  if r.2 < buf.length then r.1 ++ [(r.2, buf.length)] else r.1

theorem slice_succ {s i : ℕ} {b : UInt8} (hle : s ≤ i) (hb : buf[i]? = some b) :
    slice buf (s, i + 1) = slice buf (s, i) ++ [b] := by
  have hget : (buf.drop s)[i - s]? = some b := by
    rw [List.getElem?_drop, Nat.add_sub_cancel' hle, hb]
  rw [slice, slice, Nat.succ_sub hle, Nat.succ_eq_add_one, List.take_add_one, hget]
  rfl

theorem segmentsFrom_segments {rest : List UInt8} {i segStart : ℕ} (hrest : buf.drop i = rest)
    (hi : i ≤ buf.length) (hle : segStart ≤ i) (hinside : newline ∉ slice buf (segStart, i)) :
    Segments newline buf segStart (allSegments buf (segmentsFrom i segStart rest)) ∧
      newline ∉ buf.drop (segmentsFrom i segStart rest).2 := by
  induction rest generalizing i segStart with
  | nil =>
    have hlength : i = buf.length := Nat.le_antisymm hi (List.drop_eq_nil_iff.mp hrest)
    subst hlength
    have hopen : newline ∉ buf.drop segStart := by
      rw [slice, ← List.length_drop, List.take_length] at hinside
      exact hinside
    rw [segmentsFrom, allSegments]
    refine ⟨?_, hopen⟩
    dsimp only
    split
    · rename_i hlt
      exact .rest hlt hopen
    · have heq : segStart = buf.length := by omega
      rw [heq]
      exact .done
  | cons b rest ih =>
    have hlt : i < buf.length := by
      have hlength := congrArg List.length hrest
      rw [List.length_drop, List.length_cons] at hlength
      omega
    have hb : buf[i]? = some b := by
      have hget := congrArg (·[0]?) hrest
      simpa [List.getElem?_drop] using hget
    have hnext : buf.drop (i + 1) = rest := by
      rw [← List.drop_drop, hrest, List.drop_one, List.tail_cons]
    rw [segmentsFrom]
    split
    · rename_i hnew
      subst hnew
      have hempty : newline ∉ slice buf (i + 1, i + 1) := by
        rw [slice, Nat.sub_self, List.take_zero]
        exact List.not_mem_nil
      obtain ⟨hsegs, hopen⟩ := ih hnext hlt (Nat.le_refl _) hempty
      refine ⟨?_, hopen⟩
      have hline := Segments.line hle hlt hb hinside hsegs
      rw [allSegments] at hline ⊢
      dsimp only
      split at hline
      · rename_i hlast
        rw [if_pos hlast]
        exact hline
      · rename_i hlast
        rw [if_neg hlast]
        exact hline
    · rename_i hne
      apply ih hnext hlt (Nat.le_succ_of_le hle)
      rw [slice_succ hle hb, List.mem_append, not_or]
      exact ⟨hinside, fun h ↦ hne (List.mem_singleton.mp h).symm⟩

end Splitting

section Pages

variable {fromUtf8Lossy : List UInt8 → String} {file : List UInt8} {limit : ℕ}

/-- A position at which the file can be cut without cutting a line. -/
def Boundary (file : List UInt8) (offset : ℕ) : Prop :=
  offset ≤ file.length ∧ (offset = file.length ∨ Ended newline (file.take offset))

/-- A page holds the last lines before its end, and returns where they start if there are more. -/
structure Page (fromUtf8Lossy : List UInt8 → String) (file : List UInt8) (end_ : ℕ)
    (r : List String × Option ℕ) : Prop where
  last : r.2 = none → r.1 = ((lines newline (file.take end_)).map fromUtf8Lossy).reverse
  more : ∀ offset, r.2 = some offset → offset < end_ ∧ Boundary file offset ∧
    ((lines newline (file.take end_)).map fromUtf8Lossy).reverse =
      r.1 ++ ((lines newline (file.take offset)).map fromUtf8Lossy).reverse

theorem page_of_segments {start end_ k : ℕ} {buf : List UInt8} {segs : List (ℕ × ℕ)}
    (hle : end_ ≤ file.length) (hread : Read file limit end_ (start, buf))
    (hsegs : Segments newline buf 0 segs)
    (hstart : k = 0 → start = 0 ∨ file[start - 1]? = some newline)
    (hnil : segs.drop k = [] → end_ = 0) :
    Page fromUtf8Lossy file end_
      (((segs.drop k).map fun segment ↦ fromUtf8Lossy (slice buf segment)).reverse,
        ((segs.drop k).head?.map fun segment ↦ start + segment.1).filter fun offset ↦
          0 < offset) := by
  have hbuf : buf = (file.take end_).drop start := hread.buf
  have hlength := hread.length hle
  cases hchosen : segs.drop k with
  | nil =>
    rw [hnil hchosen]
    exact ⟨fun _ ↦ rfl, fun _ h ↦ by cases h⟩
  | cons segment rest =>
    obtain ⟨s, e⟩ := segment
    obtain ⟨hrest, hlt, hcase⟩ := hsegs.drop hchosen
    have hlines : ((segs.drop k).map fun segment ↦ fromUtf8Lossy (slice buf segment)) =
        (lines newline ((file.take end_).drop (start + s))).map fromUtf8Lossy := by
      rw [← List.drop_drop, ← hbuf, ← hrest.lines, List.map_map]
      rfl
    rw [← hchosen, hlines, hchosen, List.head?_cons, Option.map_some]
    by_cases hzero : start + s = 0
    · rw [hzero]
      exact ⟨fun _ ↦ rfl, fun _ h ↦ by cases h⟩
    · have hended : Ended newline (file.take (start + s)) := by
        rcases hcase with ⟨hk, rfl⟩ | ⟨i, rfl, hi⟩
        · rcases hstart hk with h | h
          · exact absurd h hzero
          · have hsucc : start - 1 + 1 = start := by omega
            have hended := ended_take h
            rw [hsucc] at hended
            exact hended
        · have hget : file[start + i]? = some newline := by
            rw [hbuf, List.getElem?_drop] at hi
            exact (List.getElem?_take_of_lt (by omega)).symm.trans hi
          exact ended_take hget
      rw [Option.filter_some, if_pos (by simpa using Nat.pos_of_ne_zero hzero)]
      refine ⟨fun h ↦ ?_, fun offset hoffset ↦ ?_⟩
      · cases h
      cases hoffset
      refine ⟨by omega, ⟨by omega, .inr hended⟩, ?_⟩
      have hsplit := List.take_append_drop (start + s) (file.take end_)
      rw [List.take_take, Nat.min_eq_left (by omega)] at hsplit
      rw [← List.reverse_append, ← List.map_append, ← lines_append hended, hsplit]

theorem not_open_of_boundary {start end_ last : ℕ} {buf : List UInt8} (hend : Boundary file end_)
    (hread : Read file limit end_ (start, buf)) (hopen : newline ∉ buf.drop last)
    (hlast : last < buf.length) : end_ = file.length := by
  have hbuf : buf = (file.take end_).drop start := hread.buf
  rcases hend.2 with h | h | h
  · exact h
  · rw [h, List.drop_nil] at hbuf
    rw [hbuf] at hlast
    exact absurd hlast (Nat.not_lt_zero _)
  · have hne : buf.drop last ≠ [] := by
      intro hnil
      rw [List.drop_eq_nil_iff] at hnil
      omega
    have hmem : newline ∈ buf.drop last := by
      rw [hbuf, List.drop_drop] at hne ⊢
      apply List.mem_of_getLast?
      rw [List.getLast?_drop, if_neg (fun hle ↦ hne (List.drop_eq_nil_iff.mpr hle))]
      exact h
    exact absurd hmem hopen

theorem end_eq_zero {start end_ dropped : ℕ} {buf : List UInt8} {segs : List (ℕ × ℕ)}
    (hlimit : 1 ≤ limit) (hle : end_ ≤ file.length) (hread : Read file limit end_ (start, buf))
    (hsegs : Segments newline buf 0 segs) (hdropped : dropped = 0 ∨ dropped = 1 ∧ start ≠ 0)
    (hshort : segs.length ≤ dropped) : end_ = 0 := by
  have hcount : buf.count newline ≤ segs.length := hsegs.count_le
  have hlength := hread.length hle
  have hstart : start ≤ end_ := hread.le
  have henough : start = 0 ∨ limit < buf.count newline := hread.enough
  rcases hdropped with rfl | ⟨rfl, hne⟩
  · have hnil := List.eq_nil_of_length_eq_zero (Nat.le_zero.mp hshort)
    rw [hnil] at hsegs
    have hempty := hsegs.nil_eq
    rcases henough with h | h
    · omega
    · omega
  · rcases henough with h | h
    · exact absurd h hne
    · omega

variable (fromUtf8Lossy)

theorem readTailLines_page (hlimit : 1 ≤ limit) {before : Option ℕ}
    (hend : Boundary file ((before.map (min · file.length)).getD file.length)) :
    Page fromUtf8Lossy file ((before.map (min · file.length)).getD file.length)
      (readTailLines fromUtf8Lossy file before limit) := by
  generalize hE : (before.map (min · file.length)).getD file.length = end_ at hend ⊢
  have hread : Read file limit end_ (readBackwards file limit end_ []) := by
    apply readBackwards_read (Nat.le_refl _)
    rw [List.drop_eq_nil_of_le (List.length_take_le _ _)]
  rw [readTailLines]
  dsimp only
  rw [hE]
  generalize hr : readBackwards file limit end_ [] = r at hread
  obtain ⟨start, buf⟩ := r
  have hdrop : buf.drop 0 = buf := rfl
  obtain ⟨hsegs, hopen⟩ := segmentsFrom_segments hdrop (Nat.zero_le _) (Nat.le_refl 0)
    (by rw [slice, Nat.sub_self, List.take_zero]; exact List.not_mem_nil)
  generalize hs : segmentsFrom 0 0 buf = found at hsegs hopen
  obtain ⟨segs, last⟩ := found
  dsimp only
  have hwhole : (if decide (last < buf.length) = true then segs ++ [(last, buf.length)]
      else segs) = allSegments buf (segs, last) := by
    simp only [allSegments, decide_eq_true_eq]
  have hkept (found : List (ℕ × ℕ)) :
      (if (decide (last < buf.length) && decide (end_ < file.length)) = true then found.dropLast
        else found) = found := by
    rw [if_neg]
    rw [Bool.and_eq_true, decide_eq_true_eq, decide_eq_true_eq]
    rintro ⟨hlast, hlt⟩
    exact absurd (not_open_of_boundary hend hread hopen hlast) (Nat.ne_of_lt hlt)
  rw [hwhole, hkept]
  generalize allSegments buf (segs, last) = whole at hsegs
  have hpage (dropped : ℕ)
      (hdropped : dropped = 0 ∧ (start = 0 ∨ file[start - 1]? = some newline) ∨
        dropped = 1 ∧ start ≠ 0) :
      Page fromUtf8Lossy file end_
        (let chosen := (whole.drop dropped).drop
          ((whole.drop dropped).length - min limit (whole.drop dropped).length)
        ((chosen.map fun segment ↦ fromUtf8Lossy (slice buf segment)).reverse,
          (chosen.head?.map fun segment ↦ start + segment.1).filter fun offset ↦ 0 < offset)) := by
    dsimp only
    rw [List.drop_drop]
    apply page_of_segments hend.1 hread hsegs
    · intro hk
      rcases hdropped with ⟨_, h⟩ | ⟨h, _⟩
      · exact h
      · omega
    · intro hnil
      apply end_eq_zero hlimit hend.1 hread hsegs (hdropped.imp_left And.left)
      rw [List.drop_eq_nil_iff, List.length_drop] at hnil
      omega
  cases hboundary : (decide (start = 0) || decide (file[start - 1]? = some newline)) with
  | true =>
    rw [Bool.or_eq_true, decide_eq_true_eq, decide_eq_true_eq] at hboundary
    exact hpage 0 (.inl ⟨rfl, hboundary⟩)
  | false =>
    rw [Bool.or_eq_false_iff, decide_eq_false_iff_not] at hboundary
    exact hpage 1 (.inr ⟨rfl, hboundary.1⟩)

theorem followPages_lines (hlimit : 1 ≤ limit) {before : Option ℕ} {end_ fuel : ℕ}
    (hend : (before.map (min · file.length)).getD file.length = end_)
    (hboundary : Boundary file end_) (hfuel : end_ < fuel) :
    followPages fromUtf8Lossy file limit fuel before =
      some ((lines newline (file.take end_)).map fromUtf8Lossy).reverse := by
  induction fuel generalizing before end_ with
  | zero => omega
  | succ fuel ih =>
    have hpage := readTailLines_page fromUtf8Lossy hlimit (hend ▸ hboundary)
    rw [hend] at hpage
    rw [followPages]
    generalize readTailLines fromUtf8Lossy file before limit = read at hpage
    obtain ⟨page, next⟩ := read
    cases next with
    | none =>
      dsimp only
      exact congrArg some (hpage.last rfl)
    | some offset =>
      obtain ⟨hlt, hoffset, hmore⟩ := hpage.more offset rfl
      have hnext : ((some offset).map (min · file.length)).getD file.length = offset :=
        Nat.min_eq_left hoffset.1
      dsimp only
      rw [ih hnext hoffset (by omega), hmore]
      rfl

/-- Paging through a file from its end gives every line once, the newest first, and stops. -/
theorem followPages_eq (file : List UInt8) {limit : ℕ} (hlimit : 1 ≤ limit) {fuel : ℕ} (hfuel : file.length < fuel) :
    followPages fromUtf8Lossy file limit fuel none =
      some ((lines newline file).map fromUtf8Lossy).reverse := by
  have hend : ((none : Option ℕ).map (min · file.length)).getD file.length = file.length := rfl
  have hpages := followPages_lines fromUtf8Lossy hlimit hend ⟨Nat.le_refl _, .inl rfl⟩ hfuel
  rw [List.take_length] at hpages
  exact hpages

theorem followPages_eq_two :
    followPages (fun bytes ↦ String.ofList (bytes.map fun b ↦ Char.ofNat b.toNat)) [65, 10, 66] 1 4
      none = some ["B", "A"] :=
  (followPages_eq _ _ (by decide) (by decide)).trans rfl

end Pages

end QueQiao.ErrorLogApi
