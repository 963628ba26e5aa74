import QueQiao.Handlers.ErrorLog
import QueQiao.Handlers.StreamLoggers
import Mathlib.Data.Nat.Digits.Defs

namespace QueQiao.AccessLog

open ErrorLogApi StreamLoggers

def OneLine (s : String) : Prop := '\n' ∉ s.toList

instance (s : String) : Decidable (OneLine s) := inferInstanceAs (Decidable ('\n' ∉ s.toList))

section Debug

-- the characters that the `Debug` text of a string escapes by their number
variable (unprintable : Char → Bool)

def escapeDebug (c : Char) : Text :=
  if c = '\x00' then ['\\', '0']
  else if c = '\t' then ['\\', 't']
  else if c = '\r' then ['\\', 'r']
  else if c = '\n' then ['\\', 'n']
  else if c = '"' then ['\\', '"']
  else if c = '\\' then ['\\', '\\']
  else if unprintable c then
    ['\\', 'u', '\x7b'] ++ ((Nat.digits 16 c.toNat).reverse.map Nat.digitChar) ++ ['\x7d']
  else [c]

/-- The text of a string in `{:?}`. -/
def debugStr (s : String) : Text := '"' :: s.toList.flatMap (escapeDebug unprintable) ++ ['"']

def namedEscapes : List Char := ['0', 't', 'r', 'n', '"', '\\']

theorem forall_named {P : Char → Prop} :
    (∀ e ∈ namedEscapes, P e) ↔ P '0' ∧ P 't' ∧ P 'r' ∧ P 'n' ∧ P '"' ∧ P '\\' := by
  simp [namedEscapes]

/-- The forms in which a character is written: behind a backslash, by its number, or as it is. -/
inductive Written : Char → Text → Prop
  | named {e : Char} (he : e ∈ namedEscapes) : Written (unescape e) ['\\', e]
  | number {c : Char} (hzero : c.toNat ≠ 0) (hquote : c ≠ '"') :
      Written c ('\\' :: 'u' :: '{' :: ((Nat.digits 16 c.toNat).reverse.map Nat.digitChar ++ ['}']))
  | plain {c : Char} (hquote : c ≠ '"') (hback : c ≠ '\\') (hline : c ≠ '\n') : Written c [c]

theorem written_escapeDebug (c : Char) : Written c (escapeDebug unprintable c) := by
  have hnamed : ∀ e ∈ namedEscapes, unescape e = c → Written c ['\\', e] := by
    rintro e he rfl
    exact .named he
  rw [escapeDebug]
  split_ifs with h1 h2 h3 h4 h5 h6 h7
  · exact hnamed '0' (by decide) (by rw [h1]; rfl)
  · exact hnamed 't' (by decide) (by rw [h2]; rfl)
  · exact hnamed 'r' (by decide) (by rw [h3]; rfl)
  · exact hnamed 'n' (by decide) (by rw [h4]; rfl)
  · exact hnamed '"' (by decide) (by rw [h5]; rfl)
  · exact hnamed '\\' (by decide) (by rw [h6]; rfl)
  · exact .number (fun hzero ↦ h1 (Char.toNat_inj.mp hzero)) h5
  · exact .plain h5 h6 h4

theorem digitChar_ne_line : ∀ d < 16, Nat.digitChar d ≠ '\n' := by decide

theorem not_mem_digits {x : Char} (hx : ∀ d < 16, Nat.digitChar d ≠ x) (n : ℕ) :
    x ∉ (Nat.digits 16 n).reverse.map Nat.digitChar := by
  intro hmem
  obtain ⟨d, hd, heq⟩ := List.mem_map.mp hmem
  exact hx d (Nat.digits_lt_base (by decide) (List.mem_reverse.mp hd)) heq

theorem not_mem_number {x : Char} (hx : ∀ d < 16, Nat.digitChar d ≠ x)
    (hparts : x ∉ ['\\', 'u', '{', '}']) (n : ℕ) :
    x ∉ '\\' :: 'u' :: '{' :: ((Nat.digits 16 n).reverse.map Nat.digitChar ++ ['}']) := by
  have hdigits := not_mem_digits hx n
  simp only [List.mem_cons, List.mem_append, List.not_mem_nil, or_false, not_or] at hparts ⊢
  exact ⟨hparts.1, hparts.2.1, hparts.2.2.1, hdigits, hparts.2.2.2⟩

theorem escapeDebug_oneLine (c : Char) : '\n' ∉ escapeDebug unprintable c := by
  have hnamed : ∀ e ∈ namedEscapes, '\n' ∉ ['\\', e] := forall_named.mpr (by decide)
  have hwritten := written_escapeDebug unprintable c
  generalize escapeDebug unprintable c = text at hwritten ⊢
  cases hwritten with
  | named he => exact hnamed _ he
  | number => exact not_mem_number digitChar_ne_line (by decide) c.toNat
  | plain _ _ hline => exact fun hmem ↦ hline (List.mem_singleton.mp hmem).symm

theorem debugStr_oneLine (s : String) : '\n' ∉ debugStr unprintable s := by
  rw [debugStr]
  intro hmem
  rcases List.mem_append.mp hmem with hmem | hmem
  · rcases List.mem_cons.mp hmem with h | hmem
    · revert h
      decide
    · obtain ⟨c, -, hc⟩ := List.mem_flatMap.mp hmem
      exact escapeDebug_oneLine unprintable c hc
  · revert hmem
    decide

end Debug

section Lines

variable (unprintable : Char → Bool)

def truncateTokenForLog (token : String) : String :=
  if token.utf8ByteSize > 10 then String.ofList (token.toList.take 8) ++ "..." else token

/-- What the middleware reads besides the entry of the handler: the request line, texts of headers,
and times. None of it holds a line feed. -/
structure RequestFields where
  clientIp : String
  timeStr : String
  method : String
  uri : String
  version : String
  bodyBytes : String
  userAgent : String
  latency : String
  bearerToken : Option String
  logFullToken : Bool
  oneLine : ∀ s ∈ [clientIp, timeStr, method, uri, version, bodyBytes, userAgent, latency],
    OneLine s
  token_oneLine : ∀ token ∈ bearerToken, OneLine token

def RequestFields.apiKeyForError (fields : RequestFields) : String :=
  (fields.bearerToken.map fun token ↦
    if fields.logFullToken then token else truncateTokenForLog token).getD "-"

def loggedModel (resp : Response) : String := (resp.log.map (·.model)).getD "-"

def errorLine (fields : RequestFields) (resp : Response) : Text :=
  let errorMsg := (resp.log.bind (·.error)).getD "-"
  let body := (resp.log.bind (·.requestBody)).map (debugStr unprintable)
  [fields.clientIp.toList, " - - [".toList, fields.timeStr.toList, "] \"".toList,
    fields.method.toList, " ".toList, fields.uri.toList, " ".toList, fields.version.toList,
    "\" ".toList, resp.status.asU16.repr.toList, " ".toList, fields.bodyBytes.toList,
    " \"-\" \"".toList, fields.userAgent.toList, "\" ".toList, fields.latency.toList,
    "s \"".toList, (loggedModel resp).toList, "\" \"".toList, fields.apiKeyForError.toList,
    "\" ".toList, debugStr unprintable errorMsg, " ".toList, body.getD "\"-\"".toList].flatten

/-- What `access_log_middleware` writes to the error log. -/
def accessEntry (fields : RequestFields) (resp : Response) : Option Text :=
  if resp.status.isServerError || resp.status.isClientError then
    some (errorLine unprintable fields resp)
  else none

/-- The layer of `tracing` that writes a message to a log. It is taken to write it as it is; newer
versions escape the control characters of terminals. -/
structure FmtLayer where
  write : Text → Text
  verbatim : ∀ message, write message = message

def FmtLayer.plain : FmtLayer := ⟨id, fun _ ↦ rfl⟩

/-- The times at which interruptions are logged, and the address of the client. -/
structure InterruptionFields where
  clientIp : String
  timeStr : ℕ → String
  clientIp_oneLine : OneLine clientIp
  time_oneLine : ∀ i, OneLine (timeStr i)
  time_closed : ∀ i, ']' ∉ (timeStr i).toList

def interruptionText (fields : InterruptionFields) (x : Interruption) : Text :=
  [" client=".toList, fields.clientIp.toList, " endpoint=".toList, x.endpoint.toList,
    " model=".toList, x.model.toList, " backend=".toList, x.backend.toList,
    " error=".toList].flatten ++ debugStr unprintable x.error

def interruptionLine (fields : InterruptionFields) (i : ℕ) (x : Interruption) : Text :=
  '[' :: ((fields.timeStr i).toList ++ ']' :: ' ' ::
    (streamInterrupted ++ interruptionText unprintable fields x))

theorem repr_oneLine (n : ℕ) : '\n' ∉ n.repr.toList := by
  rw [Nat.toList_repr]
  intro hmem
  exact absurd (Nat.isDigit_of_mem_toDigits (by decide) (by decide) hmem) (by decide)

theorem truncateTokenForLog_oneLine {token : String} (h : OneLine token) :
    OneLine (truncateTokenForLog token) := by
  rw [truncateTokenForLog, OneLine]
  split
  · intro hmem
    rw [String.toList_append, String.toList_ofList] at hmem
    rcases List.mem_append.mp hmem with hmem | hmem
    · exact h (List.mem_of_mem_take hmem)
    · revert hmem
      decide
  · exact h

theorem apiKeyForError_oneLine (fields : RequestFields) : OneLine fields.apiKeyForError := by
  have htoken := fields.token_oneLine
  rw [RequestFields.apiKeyForError]
  cases h : fields.bearerToken with
  | none =>
    have hdash : OneLine "-" := by decide
    exact hdash
  | some token =>
    have hone := htoken token h
    dsimp only [Option.map_some, Option.getD_some]
    split
    · exact hone
    · exact truncateTokenForLog_oneLine hone

theorem flatten_oneLine {parts : List Text} (h : ∀ part ∈ parts, '\n' ∉ part) :
    '\n' ∉ parts.flatten := by
  intro hmem
  obtain ⟨part, hpart, hc⟩ := List.mem_flatten.mp hmem
  exact h part hpart hc

theorem errorLine_oneLine {fields : RequestFields} {resp : Response}
    (h : OneLine (loggedModel resp)) : '\n' ∉ errorLine unprintable fields resp := by
  have hfields := fields.oneLine
  have hkey := apiKeyForError_oneLine fields
  have hstatus := repr_oneLine resp.status.asU16
  have herror := debugStr_oneLine unprintable ((resp.log.bind (·.error)).getD "-")
  have hbody : '\n' ∉ ((resp.log.bind (·.requestBody)).map (debugStr unprintable)).getD
      "\"-\"".toList := by
    cases resp.log.bind (·.requestBody) with
    | none => exact of_decide_eq_true rfl
    | some body => exact debugStr_oneLine unprintable body
  simp only [OneLine, List.forall_mem_cons, List.not_mem_nil, false_implies, implies_true,
    and_true] at hfields
  obtain ⟨hip, htime, hmethod, huri, hversion, hbytes, hagent, hlatency⟩ := hfields
  apply flatten_oneLine
  simp only [List.forall_mem_cons, List.not_mem_nil, false_implies, implies_true, and_true]
  exact ⟨hip, by decide, htime, by decide, hmethod, by decide, huri, by decide, hversion,
    by decide, hstatus, by decide, hbytes, by decide, hagent, by decide, hlatency, by decide, h,
    by decide, hkey, by decide, herror, by decide, hbody⟩

theorem interruptionLine_oneLine (fields : InterruptionFields) (i : ℕ) {x : Interruption}
    (hendpoint : OneLine x.endpoint) (hmodel : OneLine x.model) (hbackend : OneLine x.backend) :
    '\n' ∉ interruptionLine unprintable fields i x := by
  have htext : '\n' ∉ interruptionText unprintable fields x := by
    intro hmem
    refine (List.mem_append.mp hmem).elim (flatten_oneLine ?_) (debugStr_oneLine unprintable x.error)
    simp only [List.forall_mem_cons, List.not_mem_nil, false_implies, implies_true, and_true]
    exact ⟨by decide, fields.clientIp_oneLine, by decide, hendpoint, by decide, hmodel, by decide,
      hbackend, by decide⟩
  have hstart : '\n' ∉ streamInterrupted := by decide
  simp only [interruptionLine, List.mem_cons, List.mem_append, not_or]
  exact ⟨by decide, fields.time_oneLine i, by decide, by decide, hstart, htext⟩

theorem statuses_interruptionLine (fields : InterruptionFields) (i : ℕ) {x : Interruption}
    (h : '\n' ∉ interruptionLine unprintable fields i x) :
    statuses (interruptionLine unprintable fields i x) = [] := by
  have hquote : ∃ rest, interruptionText unprintable fields x = rest ++ ['"'] :=
    ⟨_, (List.append_assoc _ ('"' :: x.error.toList.flatMap (escapeDebug unprintable)) _).symm⟩
  obtain ⟨rest, hrest⟩ := hquote
  have hline : interruptionLine unprintable fields i x =
      '[' :: ((fields.timeStr i).toList ++ ']' :: ' ' :: (streamInterrupted ++ rest)) ++ ['"'] := by
    rw [interruptionLine, hrest]
    simp only [List.append_assoc, List.cons_append]
  rw [hline] at h ⊢
  exact statuses_interrupted (fields.time_closed i) (by decide) h

end Lines

end QueQiao.AccessLog
