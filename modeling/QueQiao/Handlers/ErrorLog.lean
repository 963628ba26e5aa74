import QueQiao.Config.Types
import QueQiao.Lib.Delimiters
import Mathlib.Algebra.GroupWithZero.Nat

namespace QueQiao.ErrorLogApi

open Lib.Delimiters

abbrev Text := List Char

section Text

def trimStart (s : Text) : Text := s.dropWhile isWhiteSpace

def trimEnd (s : Text) : Text := (s.reverse.dropWhile isWhiteSpace).reverse

def trim (s : Text) : Text := trimEnd (trimStart s)

def splitOnce (pattern s : Text) : Option (Text × Text) :=
  (findSub pattern s).map fun i ↦ (s.take i, s.drop (i + pattern.length))

def splitOnceChar (c : Char) (s : Text) : Option (Text × Text) :=
  match s.dropWhile (· ≠ c) with
  | [] => none
  | _ :: rest => some (s.takeWhile (· ≠ c), rest)

/-- `str::parse` for `i64`: a sign or none, and then digits. -/
def parseI64 (s : Text) : Option ℤ :=
  let digits := match s with
    | '-' :: rest | '+' :: rest => rest
    | _ => s
  if digits ≠ [] ∧ digits.all Char.isDigit then
    let n : ℤ := digits.foldl (fun n c ↦ 10 * n + (c.toNat - '0'.toNat : ℕ)) 0
    let v := if s.head? = some '-' then -n else n
    if -0x8000000000000000 ≤ v ∧ v ≤ 0x7fffffffffffffff then some v else none
  else none

def hexDigit (c : Char) : Option ℕ :=
  if c.isDigit then some (c.toNat - '0'.toNat)
  else if 'a' ≤ c ∧ c ≤ 'f' then some (c.toNat - 'a'.toNat + 10)
  else if 'A' ≤ c ∧ c ≤ 'F' then some (c.toNat - 'A'.toNat + 10)
  else none

def charFromHex (hex : Text) : Option Char :=
  let digits := match hex with
    | '+' :: rest => rest
    | _ => hex
  if digits = [] then none
  else
    (digits.foldl (fun n c ↦ n.bind fun n ↦ (hexDigit c).map (16 * n + ·)) (some 0)).bind fun n ↦
      if n.isValidChar then some (Char.ofNat n) else none

theorem reverse_charFromHex (hex : Text) :
    (charFromHex hex).toList.reverse = (charFromHex hex).toList := by
  cases charFromHex hex with
  | none => rfl
  | some c => rfl

end Text

section Fields

def unescape (c : Char) : Char :=
  if c = 'n' then '\n'
  else if c = 'r' then '\r'
  else if c = 't' then '\t'
  else if c = '0' then '\x00'
  else c

/-- The loop of `parse_debug_string` behind the opening quote. A backslash before a character that
is not ASCII makes it panic. -/
def debugLoop : ℕ → Text → Text → Option (Text × Text)
  | 0, _, _ | _ + 1, [], _ => none
  | _ + 1, '"' :: rest, out => some (out.reverse, rest)
  | _ + 1, ['\\'], _ => none
  | fuel + 1, '\\' :: 'u' :: '{' :: rest, out =>
    match splitOnceChar '}' rest with
    | some (hex, rest) => debugLoop fuel rest ((charFromHex hex).toList ++ out)
    | none => debugLoop fuel ('{' :: rest) out
  | fuel + 1, '\\' :: 'u' :: rest, out => debugLoop fuel rest out
  | fuel + 1, '\\' :: c :: rest, out =>
    if c.toNat < 128 then debugLoop fuel rest (unescape c :: out) else none
  | fuel + 1, c :: rest, out => debugLoop fuel rest (c :: out)

def parseDebugString (input : Text) : Option (Text × Text) :=
  match trimStart input with
  | '"' :: rest => debugLoop (rest.length + 1) rest []
  | _ => none

def takeQuoted (input : Text) : Option (Text × Text) := parseDebugString input

def nextToken (input : Text) : Text × Text :=
  let s := trimStart input
  (s.takeWhile fun c ↦ !isWhiteSpace c, trimStart (s.dropWhile fun c ↦ !isWhiteSpace c))

def parseKvFields : ℕ → Text → List (Text × Text)
  | 0, _ => []
  | fuel + 1, rest =>
    match splitOnceChar '=' rest with
    | none => []
    | some (key, after) =>
      let value :=
        if after.head? = some '"' then parseDebugString after
        else some (after.takeWhile fun c ↦ !isWhiteSpace c,
          after.dropWhile fun c ↦ !isWhiteSpace c)
      match value with
      | none => []
      | some (value, rest) => (trim key, value) :: parseKvFields fuel (trimStart rest)

end Fields

structure LogEntry where
  kind : String
  time : Option Text := none
  ip : Option Text := none
  method : Option Text := none
  path : Option Text := none
  status : Option ℤ := none
  userAgent : Option Text := none
  latency : Option Text := none
  model : Option Text := none
  apiKey : Option Text := none
  backend : Option Text := none
  error : Option Text := none
  requestBody : Option Text := none

def LogEntry.unparsed : LogEntry where
  kind := "unparsed"

def setField (entry : LogEntry) (field : Text × Text) : LogEntry :=
  if field.1 = "client".toList then { entry with ip := some field.2 }
  else if field.1 = "endpoint".toList then { entry with path := some field.2 }
  else if field.1 = "model".toList then { entry with model := some field.2 }
  else if field.1 = "backend".toList then { entry with backend := some field.2 }
  else if field.1 = "error".toList then { entry with error := some field.2 }
  else entry

def streamInterrupted : Text := "STREAM_INTERRUPTED".toList

def parseStreamInterrupted (line time : Text) : LogEntry :=
  let rest := trimStart line
  let fields := if streamInterrupted <+: rest then rest.drop streamInterrupted.length else line
  (parseKvFields fields.length (trim fields)).foldl setField
    { kind := "stream_interrupted", time := some time }

def parseAccessLine (line : Text) : Option LogEntry := do
  let (ip, rest) ← splitOnce " - - [".toList line
  let (time, rest) ← splitOnce "] ".toList rest
  let (request, rest) ← takeQuoted rest
  let (statusToken, rest) := nextToken rest
  let (_, rest) := nextToken rest
  let (_, rest) ← takeQuoted rest
  let (userAgent, rest) ← takeQuoted rest
  let (latency, rest) := nextToken rest
  let (model, rest) ← takeQuoted rest
  let (apiKey, rest) ← takeQuoted rest
  let (error, tailRaw) ← takeQuoted rest
  let tail := trim tailRaw
  let requestBody :=
    if tail = [] ∨ tail = "\"-\"".toList then none
    else some (((takeQuoted tail).map (·.1)).getD tail)
  let method := request.takeWhile (· ≠ ' ')
  let path := ((request.dropWhile (· ≠ ' ')).drop 1).takeWhile (· ≠ ' ')
  pure
    { kind := "http_error"
      time := some time
      ip := some ip
      method := some method
      path := some path
      status := parseI64 statusToken
      userAgent := some userAgent
      latency := some latency
      model := some model
      apiKey := some apiKey
      error := some error
      requestBody := requestBody }

def parseInterrupted : Text → Option LogEntry
  | '[' :: stripped =>
    (splitOnceChar ']' stripped).bind fun (time, rest) ↦
      let rest := trimStart rest
      if streamInterrupted <+: rest then some (parseStreamInterrupted rest time) else none
  | _ => none

def parseLine (raw : Text) : LogEntry :=
  let line := trimEnd raw
  if line = [] then .unparsed
  else (parseInterrupted line).getD ((parseAccessLine line).getD .unparsed)

section Cap

def maxErrorBytes : ℕ := 16 * 1024

def utf8Len (s : Text) : ℕ := (s.map Char.utf8Size).sum

@[simp] theorem utf8Len_nil : utf8Len [] = 0 := rfl

@[simp] theorem utf8Len_cons (c : Char) (s : Text) : utf8Len (c :: s) = c.utf8Size + utf8Len s := by
  rw [utf8Len, List.map_cons, List.sum_cons, utf8Len]

@[simp] theorem utf8Len_append (s t : Text) : utf8Len (s ++ t) = utf8Len s + utf8Len t := by
  rw [utf8Len, List.map_append, List.sum_append, utf8Len, utf8Len]

/-- The characters that lie whole in the first `n` bytes. -/
def takeBytes : ℕ → Text → Text
  | _, [] => []
  | n, c :: s => if c.utf8Size ≤ n then c :: takeBytes (n - c.utf8Size) s else []

def truncateError (msg : Text) : Text × Bool × ℕ :=
  let total := utf8Len msg
  if total ≤ maxErrorBytes then (msg, false, total)
  else
    (takeBytes maxErrorBytes msg ++
      s!"\n…[已截断：原始 {total} 字节，完整内容见「原始行」]".toList, true, total)

structure CappedEntry extends LogEntry where
  errorTruncated : Bool := false
  errorBytes : Option ℕ := none

def capError (entry : LogEntry) : CappedEntry :=
  match entry.error with
  | none => { toLogEntry := entry }
  | some msg =>
    let (capped, truncated, total) := truncateError msg
    { entry with
      error := some capped
      errorTruncated := truncated
      errorBytes := if truncated then some total else none }

/-- `parse_line` with the cap on its error. -/
def parseLineCapped (raw : Text) : CappedEntry := capError (parseLine raw)

end Cap

/-- The lines that a reader gets of an entry: `lines` splits at line feeds, and drops a carriage
return before one. -/
def physicalLines (entry : Text) : List Text :=
  (entry.splitOn '\n').map fun line ↦
    if line.getLast? = some '\r' then line.dropLast else line

/-- The statuses of the lines of an entry that have one; these lines are counted as errors. -/
def statuses (entry : Text) : List ℤ :=
  (physicalLines entry).filterMap fun line ↦ (parseLine line).status

theorem splitOn_oneLine {entry : Text} (h : '\n' ∉ entry) : entry.splitOn '\n' = [entry] := by
  apply List.splitOnP_eq_singleton
  intro c hc
  rw [beq_eq_false_iff_ne]
  intro heq
  exact h (heq ▸ hc)

theorem statuses_length_le_one {entry : Text} (h : '\n' ∉ entry) : (statuses entry).length ≤ 1 := by
  rw [statuses, physicalLines, splitOn_oneLine h]
  exact List.length_filterMap_le _ _

theorem get_foldl_setField {α : Type} {get : LogEntry → α}
    (hget : ∀ entry field, get (setField entry field) = get entry) (fields : List (Text × Text))
    (entry : LogEntry) : get (fields.foldl setField entry) = get entry := by
  induction fields generalizing entry with
  | nil => rfl
  | cons field fields ih => rw [List.foldl_cons, ih, hget]

theorem setField_status (entry : LogEntry) (field : Text × Text) :
    (setField entry field).status = entry.status := by
  rw [setField]
  split_ifs <;> rfl

theorem parseStreamInterrupted_status (line time : Text) :
    (parseStreamInterrupted line time).status = none :=
  get_foldl_setField setField_status _ _

theorem splitOnceChar_append {c : Char} {a : Text} (h : c ∉ a) (b : Text) :
    splitOnceChar c (a ++ c :: b) = some (a, b) := by
  have hne : ∀ x ∈ a, (decide (x ≠ c)) = true := by
    intro x hx
    rw [decide_eq_true_eq]
    rintro rfl
    exact h hx
  rw [splitOnceChar, List.dropWhile_append_of_pos hne, List.takeWhile_append_of_pos hne]
  simp

theorem append_cons_inj {c : Char} {a a' b b' : Text} (h : c ∉ a) (h' : c ∉ a')
    (heq : a ++ c :: b = a' ++ c :: b') : a = a' ∧ b = b' := by
  have hsplit := splitOnceChar_append h b
  rw [heq, splitOnceChar_append h'] at hsplit
  exact (Prod.mk.inj (Option.some.inj hsplit)).imp Eq.symm Eq.symm

theorem trimEnd_concat {c : Char} (h : isWhiteSpace c = false) (s : Text) :
    trimEnd (s ++ [c]) = s ++ [c] := by
  rw [trimEnd, List.reverse_concat, List.dropWhile_cons_of_neg (by simp [h]), List.reverse_cons,
    List.reverse_reverse]

theorem parseLine_interruption {time rest : Text} {c : Char} (htime : ']' ∉ time)
    (hc : isWhiteSpace c = false) :
    parseLine ('[' :: (time ++ ']' :: ' ' :: (streamInterrupted ++ rest)) ++ [c]) =
      parseStreamInterrupted (streamInterrupted ++ (rest ++ [c])) time := by
  have hsplit : splitOnceChar ']' (time ++ ']' :: ' ' :: (streamInterrupted ++ rest) ++ [c]) =
      some (time, ' ' :: (streamInterrupted ++ rest ++ [c])) := by
    rw [List.append_assoc]
    exact splitOnceChar_append htime _
  have hstart : trimStart (' ' :: (streamInterrupted ++ rest ++ [c])) =
      streamInterrupted ++ (rest ++ [c]) := by
    rw [List.append_assoc]
    rfl
  have hparse : parseInterrupted
      ('[' :: (time ++ ']' :: ' ' :: (streamInterrupted ++ rest)) ++ [c]) =
        some (parseStreamInterrupted (streamInterrupted ++ (rest ++ [c])) time) := by
    rw [List.cons_append, parseInterrupted, hsplit, Option.bind_some]
    dsimp only
    rw [hstart, if_pos (List.prefix_append _ _)]
  rw [parseLine, trimEnd_concat hc, if_neg (by simp), hparse, Option.getD_some]

theorem parseLine_interrupted {time rest : Text} {c : Char} (htime : ']' ∉ time)
    (hc : isWhiteSpace c = false) :
    (parseLine ('[' :: (time ++ ']' :: ' ' :: (streamInterrupted ++ rest)) ++ [c])).status =
      none := by
  rw [parseLine_interruption htime hc]
  exact parseStreamInterrupted_status _ _

theorem statuses_interrupted {time rest : Text} {c : Char} (htime : ']' ∉ time)
    (hc : isWhiteSpace c = false)
    (hline : '\n' ∉ '[' :: (time ++ ']' :: ' ' :: (streamInterrupted ++ rest)) ++ [c]) :
    statuses ('[' :: (time ++ ']' :: ' ' :: (streamInterrupted ++ rest)) ++ [c]) = [] := by
  have hkept : ('[' :: (time ++ ']' :: ' ' :: (streamInterrupted ++ rest)) ++ [c]).getLast? ≠
      some '\r' := by
    rw [List.getLast?_concat]
    intro heq
    rw [Option.some.inj heq] at hc
    revert hc
    decide
  rw [statuses, physicalLines, splitOn_oneLine hline, List.map_singleton, if_neg hkept]
  exact List.filterMap_cons_none (parseLine_interrupted htime hc)

section Capped

theorem capError_error (entry : LogEntry) :
    (capError entry).error = entry.error.map fun msg ↦ (truncateError msg).1 := by
  unfold capError
  cases h : entry.error with
  | none => exact h
  | some msg => rfl

theorem capError_fields (entry : LogEntry) :
    (capError entry).status = entry.status ∧ (capError entry).path = entry.path ∧
      (capError entry).userAgent = entry.userAgent ∧ (capError entry).model = entry.model ∧
      (capError entry).apiKey = entry.apiKey ∧ (capError entry).requestBody = entry.requestBody := by
  unfold capError
  split <;> exact ⟨rfl, rfl, rfl, rfl, rfl, rfl⟩

theorem truncateError_singleton {msg : Text} {c : Char} (h : (truncateError msg).1 = [c]) :
    msg = [c] := by
  rw [truncateError] at h
  split at h
  · exact h
  · have hlength := congrArg List.length h
    have hnote : (toString "\n…[已截断：原始 ").toList.length = 10 := by decide
    simp only [String.toList_append, List.length_append, hnote, List.length_singleton] at hlength
    omega

theorem utf8Len_takeBytes {n : ℕ} {s : Text} (h : n < utf8Len s) :
    n ≤ utf8Len (takeBytes n s) + 3 := by
  induction s generalizing n with
  | nil => exact absurd h (Nat.not_lt_zero n)
  | cons c s ih =>
    have hfour : c.utf8Size ≤ 4 := Char.utf8Size_le_four c
    rw [utf8Len_cons] at h
    rw [takeBytes]
    split
    · have hrest := @ih (n - c.utf8Size) (by omega)
      rw [utf8Len_cons]
      omega
    · omega

def noteFront : Text := "…[已截断：原始 ".toList

def noteBack : Text := " 字节，完整内容见「原始行」]".toList

theorem note_eq (total : ℕ) :
    s!"\n…[已截断：原始 {total} 字节，完整内容见「原始行」]".toList =
      '\n' :: (noteFront ++ (Nat.toDigits 10 total ++ noteBack)) := by
  simp only [String.toList_append, List.append_assoc]
  rw [show (toString total).toList = Nat.toDigits 10 total from Nat.toList_repr]
  rfl

theorem note_oneLine (total : ℕ) : '\n' ∉ noteFront ++ (Nat.toDigits 10 total ++ noteBack) := by
  have hdigits : '\n' ∉ Nat.toDigits 10 total := by
    intro hmem
    exact absurd (Nat.isDigit_of_mem_toDigits (by decide) (by decide) hmem) (by decide)
  simp only [List.mem_append, not_or]
  exact ⟨by decide, hdigits, by decide⟩

theorem last_line {x y p q : Text} (hp : '\n' ∉ p) (hq : '\n' ∉ q)
    (h : x ++ '\n' :: p = y ++ '\n' :: q) : p = q := by
  have hreverse := congrArg List.reverse h
  simp only [List.reverse_append, List.reverse_cons, List.append_assoc, List.singleton_append]
    at hreverse
  have hsplit := splitOnceChar_append (mt List.mem_reverse.mp hp) x.reverse
  rw [hreverse, splitOnceChar_append (mt List.mem_reverse.mp hq)] at hsplit
  exact (List.reverse_injective (Prod.mk.inj (Option.some.inj hsplit)).1).symm

theorem utf8Len_of_truncateError {a b : Text} (h : (truncateError a).1 = (truncateError b).1) :
    utf8Len a = utf8Len b := by
  have hfront : 4 ≤ utf8Len noteFront := by decide
  rw [truncateError, truncateError] at h
  split at h
  · rename_i ha
    split at h
    · exact congrArg utf8Len h
    · rename_i hb
      have htaken := utf8Len_takeBytes (Nat.lt_of_not_le hb)
      have hlength := congrArg utf8Len h
      simp only [note_eq, utf8Len_append, utf8Len_cons] at hlength
      omega
  · rename_i ha
    split at h
    · rename_i hb
      have htaken := utf8Len_takeBytes (Nat.lt_of_not_le ha)
      have hlength := congrArg utf8Len h
      simp only [note_eq, utf8Len_append, utf8Len_cons] at hlength
      omega
    · rw [note_eq, note_eq] at h
      have hnotes := last_line (note_oneLine _) (note_oneLine _) h
      have hdigits := List.append_cancel_right (List.append_cancel_left hnotes)
      have htotal := congrArg (fun digits ↦ Nat.ofDigitChars 10 digits 0) hdigits
      simpa only [Nat.ofDigitChars_toDigits, Nat.reduceLT, Nat.le_refl] using htotal

end Capped

end QueQiao.ErrorLogApi
