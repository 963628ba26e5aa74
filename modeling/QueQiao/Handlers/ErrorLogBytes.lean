import QueQiao.Handlers.DebugString
import QueQiao.Lib.ByteIndex

/-! `parse_line` over the bytes of a line: the indices and slices as they are taken, with the faults
that they come to. -/

namespace QueQiao.ErrorLogApi

open Lib.ByteIndex

section Scan

/-- The named escapes that stand for other characters; the rest is `other as char`. -/
def unescapeByte (b : UInt8) : Char :=
  if b = ascii 'n' then '\n'
  else if b = ascii 'r' then '\r'
  else if b = ascii 't' then '\t'
  else if b = ascii '0' then '\x00'
  else Char.ofNat b.toNat

/-- The loop of `parse_debug_string` from the index `i` on. -/
def debugScan (s : Text) : ℕ → ℕ → Text → Except Fault (Option (Text × ℕ))
  | 0, _, _ => .ok none
  | fuel + 1, i, out =>
    match (bytes s)[i]? with
    | none => .ok none
    | some b =>
      if b = ascii '"' then .ok (some (out.reverse, i + 1))
      else if b = ascii '\\' then
        match (bytes s)[i + 1]? with
        | none => .ok none
        | some other =>
          if other = ascii 'u' then
            if (bytes s)[i + 2]? = some (ascii '{') then
              (sliceFrom s (i + 3)).bind fun after ↦
                match findIndex (· = '}') after with
                | some close =>
                  (slice s (i + 3) (i + 3 + close)).bind fun hex ↦
                    debugScan s fuel (i + 3 + close + 1) ((charFromHex hex).toList ++ out)
                | none => debugScan s fuel (i + 2) out
            else debugScan s fuel (i + 2) out
          else debugScan s fuel (i + 2) (unescapeByte other :: out)
      else
        (sliceFrom s i).bind fun rest ↦
          match rest with
          | [] => .ok none
          | c :: _ => debugScan s fuel (i + c.utf8Size) (c :: out)

/-- `parse_debug_string`: the value, and the number of bytes that it consumed. -/
def parseDebugStringAt (input : Text) : Except Fault (Option (Text × ℕ)) :=
  let s := trimStart input
  if (bytes s)[0]? = some (ascii '"') then debugScan s (byteLen s + 1) 1 [] else .ok none

def takeQuotedAt (input : Text) : OptionT (Except Fault) (Text × Text) := do
  let s := trimStart input
  let (value, consumed) ← OptionT.mk (parseDebugStringAt s)
  let rest ← OptionT.lift (sliceFrom s consumed)
  pure (value, rest)

def nextTokenAt (input : Text) : Except Fault (Text × Text) :=
  let s := trimStart input
  match findIndex isWhiteSpace s with
  | some idx => do
    let token ← sliceTo s idx
    let rest ← sliceFrom s idx
    pure (token, trimStart rest)
  | none => pure (s, [])

/-- The value behind `=`, and the number of bytes that it consumed. -/
def kvValueAt (after : Text) : Except Fault (Option (Text × ℕ)) :=
  if after.head? = some '"' then parseDebugStringAt after
  else
    let stop := (findIndex isWhiteSpace after).getD (byteLen after)
    (sliceTo after stop).map fun value ↦ some (value, stop)

def parseKvFieldsAt : ℕ → Text → Except Fault (List (Text × Text))
  | 0, _ => .ok []
  | fuel + 1, rest =>
    match findIndex (· = '=') rest with
    | none => .ok []
    | some eq => do
      let key ← sliceTo rest eq
      let after ← sliceFrom rest (eq + 1)
      let value ← kvValueAt after
      match value with
      | none => pure []
      | some (value, consumed) =>
        let rest ← sliceFrom after consumed
        let fields ← parseKvFieldsAt fuel (trimStart rest)
        pure ((trim key, value) :: fields)

end Scan

/-- Between quotes, a backslash comes to stand directly before a character that is not ASCII. -/
inductive Trips : Text → Prop
  | here {c : Char} {text : Text} (hc : 128 ≤ c.toNat) : Trips ('\\' :: c :: text)
  | plain {c : Char} {text : Text} (hquote : c ≠ '"') (hback : c ≠ '\\') :
      Trips text → Trips (c :: text)
  | escape {c : Char} {text : Text} (hc : c ≠ 'u') : Trips text → Trips ('\\' :: c :: text)
  | skip {text : Text} (hopen : ∀ t, text = '{' :: t → '}' ∉ t) :
      Trips text → Trips ('\\' :: 'u' :: text)
  | unicode {hex text : Text} (hhex : '}' ∉ hex) :
      Trips text → Trips ('\\' :: 'u' :: '{' :: (hex ++ '}' :: text))

section Trips

variable {c : Char} {hex text value rest : Text}

theorem not_trips_nil : ¬Trips [] := fun h ↦ nomatch h

theorem not_trips_quote : ¬Trips ('"' :: text) := by
  rintro ⟨⟩
  contradiction

theorem not_trips_end : ¬Trips ['\\'] := by
  rintro ⟨⟩
  contradiction

theorem trips_plain_iff (hquote : c ≠ '"') (hback : c ≠ '\\') :
    Trips (c :: text) ↔ Trips text := by
  constructor
  · intro h
    cases h with
    | here => exact absurd rfl hback
    | plain _ _ h => exact h
    | escape => exact absurd rfl hback
    | skip => exact absurd rfl hback
    | unicode => exact absurd rfl hback
  · exact .plain hquote hback

theorem trips_escape_iff (hu : c ≠ 'u') (hc : c.toNat < 128) :
    Trips ('\\' :: c :: text) ↔ Trips text := by
  constructor
  · intro h
    cases h with
    | here hwide => omega
    | plain _ hback => exact absurd rfl hback
    | escape _ h => exact h
    | skip => exact absurd rfl hu
    | unicode => exact absurd rfl hu
  · exact .escape hu

theorem trips_skip_iff (hopen : ∀ t, text = '{' :: t → '}' ∉ t) :
    Trips ('\\' :: 'u' :: text) ↔ Trips text := by
  constructor
  · intro h
    cases h with
    | here hwide => exact absurd hwide (by decide)
    | plain _ hback => exact absurd rfl hback
    | escape hu => exact absurd rfl hu
    | skip _ h => exact h
    | unicode => exact absurd (List.mem_append_right _ List.mem_cons_self) (hopen _ rfl)
  · exact .skip hopen

theorem trips_unicode_iff (hhex : '}' ∉ hex) :
    Trips ('\\' :: 'u' :: '{' :: (hex ++ '}' :: text)) ↔ Trips text := by
  constructor
  · intro h
    generalize htail : hex ++ '}' :: text = tail at h
    cases h with
    | here hwide => exact absurd hwide (by decide)
    | plain _ hback => exact absurd rfl hback
    | escape hu => exact absurd rfl hu
    | skip hopen =>
      refine absurd ?_ (hopen tail rfl)
      rw [← htail]
      exact List.mem_append_right _ List.mem_cons_self
    | unicode hhex' h =>
      obtain ⟨-, rfl⟩ := append_cons_inj hhex hhex' htail
      exact h
  · exact .unicode hhex

theorem debugLoop_of_reads {fuel : ℕ} {out : Text} (h : Reads text value rest)
    (htrips : ¬Trips text) (hfuel : text.length < fuel) :
    debugLoop fuel text out = some (out.reverse ++ value, rest) := by
  induction h generalizing fuel out with
  | stop rest =>
    obtain ⟨n, rfl⟩ := Nat.exists_eq_add_of_lt hfuel
    rw [debugLoop, List.append_nil]
  | plain hquote hback _ ih =>
    obtain ⟨n, rfl⟩ := Nat.exists_eq_add_of_lt hfuel
    rw [debugLoop_plain hquote hback, ih (mt (trips_plain_iff hquote hback).mpr htrips)
      (by rw [List.length_cons]; omega), List.reverse_cons, List.append_assoc,
      List.singleton_append]
  | @escape c text value rest hu _ ih =>
    obtain ⟨n, rfl⟩ := Nat.exists_eq_add_of_lt hfuel
    have hc : c.toNat < 128 := Nat.lt_of_not_le fun hwide ↦ htrips (.here hwide)
    rw [debugLoop_escape hu hc, ih (mt (trips_escape_iff hu hc).mpr htrips)
      (by simp only [List.length_cons]; omega), List.reverse_cons, List.append_assoc,
      List.singleton_append]
  | skip hopen _ ih =>
    obtain ⟨n, rfl⟩ := Nat.exists_eq_add_of_lt hfuel
    rw [debugLoop_skip hopen, ih (mt (trips_skip_iff hopen).mpr htrips)
      (by simp only [List.length_cons]; omega)]
  | @unicode hex text value rest hhex _ ih =>
    obtain ⟨n, rfl⟩ := Nat.exists_eq_add_of_lt hfuel
    rw [debugLoop_unicode hhex, ih (mt (trips_unicode_iff hhex).mpr htrips)
      (by simp only [List.length_cons, List.length_append]; omega), List.reverse_append,
      reverse_charFromHex, List.append_assoc]

end Trips

section Line

def truncateErrorAt (msg : Text) : Except Fault (Text × Bool × ℕ) :=
  let total := byteLen msg
  if total ≤ maxErrorBytes then pure (msg, false, total)
  else do
    let stop := maxErrorBytes.findGreatest fun i ↦ isCharBoundary msg i
    let capped ← sliceTo msg stop
    pure (capped ++ s!"\n…[已截断：原始 {total} 字节，完整内容见「原始行」]".toList, true, total)

def CappedEntry.unparsed : CappedEntry where
  toLogEntry := .unparsed

def capErrorAt (entry : LogEntry) : Except Fault CappedEntry :=
  match entry.error with
  | none => pure { toLogEntry := entry }
  | some msg => do
    let (capped, truncated, total) ← truncateErrorAt msg
    pure { entry with
      error := some capped
      errorTruncated := truncated
      errorBytes := if truncated then some total else none }

def parseStreamInterruptedAt (line time : Text) : Except Fault CappedEntry := do
  let rest := trimStart line
  let input := if streamInterrupted <+: rest then rest.drop streamInterrupted.length else line
  let fields ← parseKvFieldsAt input.length (trim input)
  capErrorAt (fields.foldl setField { kind := "stream_interrupted", time := some time })

def requestBodyAt (tailRaw : Text) : Except Fault (Option Text) :=
  let tail := trim tailRaw
  if tail = [] ∨ tail = "\"-\"".toList then pure none
  else do
    let quoted ← (takeQuotedAt tail).run
    pure (some ((quoted.map (·.1)).getD tail))

def parseAccessLineAt (line : Text) : OptionT (Except Fault) CappedEntry := do
  let (ip, rest) ← OptionT.mk (pure (splitOnce " - - [".toList line))
  let (time, rest) ← OptionT.mk (pure (splitOnce "] ".toList rest))
  let (request, rest) ← takeQuotedAt rest
  let (statusToken, rest) ← OptionT.lift (nextTokenAt rest)
  let (_, rest) ← OptionT.lift (nextTokenAt rest)
  let (_, rest) ← takeQuotedAt rest
  let (userAgent, rest) ← takeQuotedAt rest
  let (latency, rest) ← OptionT.lift (nextTokenAt rest)
  let (model, rest) ← takeQuotedAt rest
  let (apiKey, rest) ← takeQuotedAt rest
  let (error, tailRaw) ← takeQuotedAt rest
  let requestBody ← OptionT.lift (requestBodyAt tailRaw)
  let method := request.takeWhile (· ≠ ' ')
  let path := ((request.dropWhile (· ≠ ' ')).drop 1).takeWhile (· ≠ ' ')
  OptionT.lift <| capErrorAt
    { kind := "http_error"
      time := some time
      ip := some ip
      method := some method
      path := some path
      status := parseI64 statusToken
      userAgent := some userAgent
      latency := some latency
      model := some model
      apiKey := some apiKey
      error := some error
      requestBody := requestBody }

def interruption : Text → Option (Text × Text)
  | '[' :: stripped =>
    (splitOnceChar ']' stripped).bind fun split ↦
      let rest := trimStart split.2
      if streamInterrupted <+: rest then some (split.1, rest) else none
  | _ => none

def parseLineAt (raw : Text) : Except Fault CappedEntry :=
  let line := trimEnd raw
  if line = [] then pure .unparsed
  else
    match interruption line with
    | some (time, rest) => parseStreamInterruptedAt rest time
    | none => do
      let entry ← (parseAccessLineAt line).run
      pure (entry.getD .unparsed)

end Line

section Steps

variable {s a text hex out : Text} {c : Char} {fuel : ℕ}

theorem unescapeByte_ascii (hc : c.toNat < 128) : unescapeByte (ascii c) = unescape c := by
  have hd {d : Char} (hd : d.toNat < 128) : ascii c = ascii d ↔ c = d := ascii_inj hc hd
  have hval : Char.ofNat (ascii c).toNat = c := by
    rw [ascii, UInt8.toNat_ofNat', Nat.mod_eq_of_lt (by omega), Char.ofNat_toNat]
  simp only [unescapeByte, unescape, hd (d := 'n') (by decide), hd (d := 'r') (by decide),
    hd (d := 't') (by decide), hd (d := '0') (by decide), hval]

theorem debugScan_end : debugScan s (fuel + 1) (byteLen s) out = .ok none := by
  rw [debugScan, ← length_bytes, List.getElem?_eq_none (Nat.le_refl _)]

theorem debugScan_quote (hs : s = a ++ '"' :: text) :
    debugScan s (fuel + 1) (byteLen a) out = .ok (some (out.reverse, byteLen a + 1)) := by
  subst hs
  rw [debugScan, getElem?_bytes_boundary, bytes_cons_ascii (by decide)]
  exact if_pos rfl

theorem debugScan_backslash (hs : s = a ++ ['\\']) :
    debugScan s (fuel + 1) (byteLen a) out = .ok none := by
  subst hs
  rw [debugScan, getElem?_bytes_boundary, getElem?_bytes_append, bytes_cons_ascii (by decide)]
  rfl

theorem debugScan_escape (hs : s = a ++ '\\' :: c :: text) (hu : c ≠ 'u') (hc : c.toNat < 128) :
    debugScan s (fuel + 1) (byteLen a) out =
      debugScan s fuel (byteLen (a ++ ['\\', c])) (unescape c :: out) := by
  have hlen : byteLen (a ++ ['\\', c]) = byteLen a + 2 := by
    rw [byteLen_append, byteLen_cons, byteLen_cons, utf8Size_ascii hc]
    rfl
  have hother : ascii c ≠ ascii 'u' := (ascii_inj hc (by decide)).not.mpr hu
  rw [debugScan, hs, getElem?_bytes_boundary, getElem?_bytes_append, bytes_cons_ascii (by decide),
    bytes_cons_ascii hc, ← hs, hlen, ← unescapeByte_ascii hc]
  simp [hother, ascii_inj]

theorem debugScan_skip (hs : s = a ++ '\\' :: 'u' :: text) (hopen : ∀ t, text = '{' :: t → '}' ∉ t) :
    debugScan s (fuel + 1) (byteLen a) out =
      debugScan s fuel (byteLen (a ++ ['\\', 'u'])) out := by
  have hlen : byteLen (a ++ ['\\', 'u']) = byteLen a + 2 := byteLen_append a _
  have hback : ascii '\\' ≠ ascii '"' := by decide
  rw [debugScan, hs, getElem?_bytes_boundary, getElem?_bytes_append, getElem?_bytes_append,
    bytes_cons_ascii (by decide), bytes_cons_ascii (by decide), ← hs, hlen]
  simp only [List.getElem?_cons_zero, List.getElem?_cons_succ, if_neg hback, if_true]
  cases text with
  | nil => rfl
  | cons c t =>
    obtain ⟨b, hb, hchar⟩ := head_byte c t
    have hbrace : (bytes (c :: t))[0]? = some (ascii '{') ↔ c = '{' := by
      rw [hb, Option.some.injEq]
      exact hchar '{' (by decide)
    by_cases hc : c = '{'
    · have hafter : sliceFrom s (byteLen a + 3) = .ok t := by
        have happ := sliceFrom_append (a ++ ['\\', 'u', '{']) t
        rw [byteLen_append, List.append_assoc] at happ
        rw [hs, hc]
        exact happ
      have hnone : findIndex (· = '}') t = none := by
        refine findIndex_eq_none.mpr fun x hx ↦ decide_eq_false ?_
        rintro rfl
        exact hopen t (by rw [hc]) hx
      rw [if_pos (hbrace.mpr hc), hafter, Except.bind, hnone]
    · rw [if_neg (mt hbrace.mp hc)]

theorem debugScan_unicode (hs : s = a ++ '\\' :: 'u' :: '{' :: (hex ++ '}' :: text))
    (hhex : '}' ∉ hex) :
    debugScan s (fuel + 1) (byteLen a) out =
      debugScan s fuel (byteLen (a ++ '\\' :: 'u' :: '{' :: (hex ++ ['}'])))
        ((charFromHex hex).toList ++ out) := by
  have hopen : byteLen (a ++ ['\\', 'u', '{']) = byteLen a + 3 := byteLen_append a _
  have hclose : byteLen (a ++ '\\' :: 'u' :: '{' :: (hex ++ ['}'])) =
      byteLen a + 3 + byteLen hex + 1 := by
    have hone : '\\'.utf8Size = 1 ∧ 'u'.utf8Size = 1 ∧ '{'.utf8Size = 1 ∧ '}'.utf8Size = 1 := by
      decide
    simp only [byteLen_append, byteLen_cons, byteLen_nil]
    omega
  have hback : ascii '\\' ≠ ascii '"' := by decide
  have hafter : sliceFrom s (byteLen a + 3) = .ok (hex ++ '}' :: text) := by
    have happ := sliceFrom_append (a ++ ['\\', 'u', '{']) (hex ++ '}' :: text)
    rw [hopen, List.append_assoc] at happ
    rw [hs]
    exact happ
  have hslice : slice s (byteLen a + 3) (byteLen a + 3 + byteLen hex) = .ok hex := by
    have happ := slice_append (a ++ ['\\', 'u', '{']) hex ('}' :: text)
    rw [hopen, List.append_assoc] at happ
    rw [hs]
    exact happ
  have hindex : findIndex (· = '}') (hex ++ '}' :: text) = some (byteLen hex) := by
    refine findIndex_append (c := '}') (fun x hx ↦ decide_eq_false ?_) rfl text
    rintro rfl
    exact hhex hx
  rw [debugScan, hs, getElem?_bytes_boundary, getElem?_bytes_append, getElem?_bytes_append,
    bytes_cons_ascii (by decide), bytes_cons_ascii (by decide), bytes_cons_ascii (by decide), ← hs,
    hclose]
  simp only [List.getElem?_cons_zero, List.getElem?_cons_succ, if_neg hback, if_true, hafter,
    Except.bind, hindex, hslice]

theorem debugScan_wide (hs : s = a ++ '\\' :: c :: text) (hc : 128 ≤ c.toNat) :
    debugScan s (fuel + 2) (byteLen a) out = .error .notBoundary := by
  have hback : ascii '\\' ≠ ascii '"' := by decide
  obtain ⟨b₀, b₁, bs, hbytes, h₀, h₁⟩ := bytes_cons_wide hc text
  have hu : b₀ ≠ ascii 'u' := ne_ascii h₀ (by decide)
  have hquote : b₁ ≠ ascii '"' := ne_ascii h₁ (by decide)
  have hescape : b₁ ≠ ascii '\\' := ne_ascii h₁ (by decide)
  have hinside : sliceFrom s (byteLen a + 2) = .error .notBoundary := by
    have hfault := sliceFrom_inside (a ++ ['\\']) text (c := c) Nat.one_pos (two_le_utf8Size hc)
    rw [byteLen_append, List.append_assoc] at hfault
    rw [hs]
    exact hfault
  have hnext : (bytes s)[byteLen a + 2]? = some b₁ := by
    rw [hs, getElem?_bytes_append, bytes_cons_ascii (by decide), hbytes]
    rfl
  rw [debugScan, hs, getElem?_bytes_boundary, getElem?_bytes_append, bytes_cons_ascii (by decide),
    hbytes, ← hs]
  simp only [List.getElem?_cons_zero, List.getElem?_cons_succ, if_neg hback, if_true, if_neg hu]
  rw [debugScan, hnext]
  simp only [if_neg hquote, if_neg hescape, hinside]
  rfl

theorem debugScan_plain (hs : s = a ++ c :: text) (hquote : c ≠ '"') (hback : c ≠ '\\') :
    debugScan s (fuel + 1) (byteLen a) out =
      debugScan s fuel (byteLen (a ++ [c])) (c :: out) := by
  obtain ⟨b, hb, hchar⟩ := head_byte c text
  have hrest : sliceFrom s (byteLen a) = .ok (c :: text) := by
    rw [hs]
    exact sliceFrom_append a _
  have hlen : byteLen (a ++ [c]) = byteLen a + c.utf8Size := byteLen_append a _
  rw [debugScan, hrest, hs, getElem?_bytes_boundary, hb, ← hs, hlen]
  simp only [if_neg (mt (hchar '"' (by decide)).mp hquote),
    if_neg (mt (hchar '\\' (by decide)).mp hback)]
  rfl

theorem exists_fuel {n : ℕ} (h : n < fuel) : ∃ m, fuel = m + 1 ∧ n ≤ m :=
  ⟨fuel - 1, by omega, by omega⟩

theorem debugScan_spec {scanned : ℕ} (hs : s = a ++ text) (hfuel : text.length < fuel)
    (hscanned : text.length < scanned) :
    FaultsWhen .notBoundary (Trips text) (debugScan s scanned (byteLen a) out)
      ((debugLoop fuel text out).map fun read ↦ (read.1, byteLen s - byteLen read.2)) := by
  fun_induction debugLoop fuel text out generalizing a scanned with
  | case1 => exact absurd hfuel (Nat.not_lt_zero _)
  | case2 =>
    obtain ⟨n, rfl, -⟩ := exists_fuel hscanned
    rw [List.append_nil] at hs
    rw [← hs]
    exact (FaultsWhen.of_eq debugScan_end).congr (iff_false_intro not_trips_nil)
  | case3 fuel rest out =>
    obtain ⟨n, rfl, -⟩ := exists_fuel hscanned
    have hindex : byteLen s - byteLen rest = byteLen a + 1 := by
      have hone : '"'.utf8Size = 1 := by decide
      rw [hs, byteLen_append, byteLen_cons]
      omega
    rw [Option.map_some, hindex]
    exact (FaultsWhen.of_eq (debugScan_quote hs)).congr (iff_false_intro not_trips_quote)
  | case4 =>
    obtain ⟨n, rfl, -⟩ := exists_fuel hscanned
    exact (FaultsWhen.of_eq (debugScan_backslash hs)).congr (iff_false_intro not_trips_end)
  | case5 fuel text out hex rest hsplit ih =>
    obtain ⟨htext, hhex⟩ := splitOnceChar_eq_some hsplit
    obtain ⟨n, rfl, hn⟩ := exists_fuel hscanned
    subst htext
    simp only [List.length_cons, List.length_append] at hfuel hn
    rw [debugScan_unicode hs hhex]
    exact (ih (by simpa using hs) (by omega) (by omega)).congr (trips_unicode_iff hhex)
  | case6 fuel text out hsplit ih =>
    have hopen : ∀ t, '{' :: text = '{' :: t → '}' ∉ t := by
      intro t ht
      obtain ⟨-, rfl⟩ := List.cons.inj ht
      exact splitOnceChar_eq_none hsplit
    obtain ⟨n, rfl, hn⟩ := exists_fuel hscanned
    simp only [List.length_cons] at hfuel hn
    rw [debugScan_skip hs hopen]
    exact (ih (by simpa using hs) (by simp only [List.length_cons]; omega)
      (by simp only [List.length_cons]; omega)).congr (trips_skip_iff hopen)
  | case7 fuel text out hbrace ih =>
    have hopen : ∀ t, text = '{' :: t → '}' ∉ t := fun t ht ↦ absurd ht (hbrace t)
    obtain ⟨n, rfl, hn⟩ := exists_fuel hscanned
    simp only [List.length_cons] at hfuel hn
    rw [debugScan_skip hs hopen]
    exact (ih (by simpa using hs) (by omega) (by omega)).congr (trips_skip_iff hopen)
  | case8 fuel c text out _ hu hc ih =>
    obtain ⟨n, rfl, hn⟩ := exists_fuel hscanned
    simp only [List.length_cons] at hfuel hn
    rw [debugScan_escape hs hu hc]
    exact (ih (by simpa using hs) (by omega) (by omega)).congr (trips_escape_iff hu hc)
  | case9 fuel c text out _ hu hc =>
    obtain ⟨n, rfl, hn⟩ := exists_fuel hscanned
    obtain ⟨m, rfl, -⟩ := exists_fuel (Nat.lt_of_succ_le hn)
    have hwide : 128 ≤ c.toNat := Nat.le_of_not_lt hc
    exact ⟨fun _ ↦ debugScan_wide hs hwide, fun h ↦ absurd (.here hwide) h⟩
  | case10 fuel c text out hquote hend _ _ hnext ih =>
    have hback : c ≠ '\\' := by
      intro hback
      cases text with
      | nil => exact hend hback rfl
      | cons d text => exact hnext d text hback rfl
    obtain ⟨n, rfl, hn⟩ := exists_fuel hscanned
    simp only [List.length_cons] at hfuel hn
    rw [debugScan_plain hs hquote hback]
    exact (ih (by simpa using hs) (by omega) (by omega)).congr (trips_plain_iff hquote hback)

end Steps

end QueQiao.ErrorLogApi
