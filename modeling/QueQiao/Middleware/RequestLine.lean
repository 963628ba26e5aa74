import QueQiao.Lib.Lines
import QueQiao.Middleware.EscapedText
import Mathlib.Data.List.TakeWhile

namespace QueQiao.AccessLog

open ErrorLogApi Lib.Delimiters Lib.Lines

/-- A word that a reader of the line takes as one token and as it is. -/
def Plain (s : Text) : Prop :=
  s ≠ [] ∧ ∀ c ∈ s, isWhiteSpace c = false ∧ c ≠ '"' ∧ c ≠ '\\' ∧ c ≠ '}'

instance (s : Text) : Decidable (Plain s) :=
  @instDecidableAnd _ _ _ (List.decidableBAll _ s)

/-- What the types of a request line and the formats of the numbers and times promise. -/
structure HttpFields extends RequestFields where
  method_plain : Plain method.toList
  uri_noSpace : ' ' ∉ uri.toList
  version_plain : Plain version.toList
  bodyBytes_plain : Plain bodyBytes.toList
  latency_plain : Plain latency.toList
  time_open : ']' ∉ timeStr.toList

section Pieces

variable (unprintable : Char → Bool) (fields : RequestFields) (resp : Response)

def loggedError : String := (resp.log.bind (·.error)).getD "-"

def loggedBody : Option String := resp.log.bind (·.requestBody)

def bodyText : Text := ((loggedBody resp).map (debugStr unprintable)).getD "\"-\"".toList

def afterError : Text := ' ' :: bodyText unprintable resp

def errorText : Text := (loggedError resp).toList.flatMap (escapeDebug unprintable)

def afterKey : Text := ' ' :: '"' :: (errorText unprintable resp ++ '"' :: afterError unprintable resp)

def afterModel : Text :=
  ' ' :: '"' :: (fields.apiKeyForError.toList ++ '"' :: afterKey unprintable resp)

def latencyGap : Text := ' ' :: (fields.latency.toList ++ ['s'])

def afterAgent : Text :=
  latencyGap fields ++ ' ' :: '"' :: ((loggedModel resp).toList ++
    '"' :: afterModel unprintable fields resp)

def afterReferer : Text :=
  ' ' :: '"' :: (fields.userAgent.toList ++ '"' :: afterAgent unprintable fields resp)

def statusGap : Text := ' ' :: (resp.status.asU16.repr.toList ++ ' ' :: fields.bodyBytes.toList)

def afterRequest : Text :=
  statusGap fields resp ++ ' ' :: '"' :: '-' :: '"' :: afterReferer unprintable fields resp

def requestLine : Text :=
  fields.method.toList ++ ' ' :: (fields.uri.toList ++ ' ' :: fields.version.toList)

def afterTime : Text :=
  '"' :: (requestLine fields ++ '"' :: afterRequest unprintable fields resp)

theorem errorLine_eq :
    errorLine unprintable fields resp =
      fields.clientIp.toList ++ (" - - [".toList ++ (fields.timeStr.toList ++ ("] ".toList ++
        afterTime unprintable fields resp))) := by
  simp [errorLine, afterTime, requestLine, afterRequest, statusGap, afterReferer, afterAgent,
    latencyGap, afterModel, afterKey, afterError, bodyText, loggedBody, errorText, loggedError,
    debugStr]

end Pieces

section Reader

theorem splitOnce_append {p a b : Text} {z : Char} (hz : z ∉ p) (ha : ¬p ++ [z] <:+: a) :
    splitOnce (p ++ [z]) (a ++ ((p ++ [z]) ++ b)) = some (a, b) := by
  have hfind : findSub (p ++ [z]) (a ++ ((p ++ [z]) ++ b)) = some a.length := by
    refine findSub_eq_some_iff.mpr ⟨by simp, ?_, ?_⟩
    · rw [List.drop_left]
      exact List.prefix_append _ _
    · intro j hj hpre
      obtain ⟨t, ht⟩ := hpre
      rw [List.drop_append_of_le_length hj.le] at ht
      -- the last character of an earlier occurrence does not lie in the first characters of this one
      have hsplit : p ++ z :: t = a.drop j ++ (p ++ z :: b) := by simpa using ht
      have hpos : 0 < (a.drop j).length := by
        rw [List.length_drop]
        omega
      rcases List.append_eq_append_iff.mp hsplit with ⟨m, hd, hm⟩ | ⟨m, hp, hm⟩
      · cases m with
        | nil =>
          rw [hd, List.append_nil] at hpos
          obtain ⟨x, p, rfl⟩ := List.exists_cons_of_length_pos hpos
          exact hz ((List.cons.inj hm).1 ▸ List.mem_cons_self)
        | cons x m =>
          refine ha (List.IsInfix.trans ?_ (List.drop_suffix j a).isInfix)
          rw [hd, ← (List.cons.inj hm).1]
          exact ⟨[], m, by simp⟩
      · have hshort : m.length < p.length := by
          rw [hp, List.length_append]
          omega
        rcases List.append_eq_append_iff.mp hm with ⟨n, hn, -⟩ | ⟨n, hn, hzn⟩
        · rw [hn, List.length_append] at hshort
          omega
        · cases n with
          | nil =>
            rw [hn, List.append_nil] at hshort
            exact absurd hshort (Nat.lt_irrefl _)
          | cons x n =>
            refine hz ?_
            rw [hn, (List.cons.inj hzn).1]
            exact List.mem_append_right _ List.mem_cons_self
  rw [splitOnce, hfind]
  simp

/-- What `parse_access_line` makes of the fields that it has found. -/
def foundEntry (ip time request statusToken userAgent latency model apiKey error tailRaw : Text) :
    LogEntry :=
  let tail := trim tailRaw
  { kind := "http_error"
    time := some time
    ip := some ip
    method := some (request.takeWhile (· ≠ ' '))
    path := some (((request.dropWhile (· ≠ ' ')).drop 1).takeWhile (· ≠ ' '))
    status := parseI64 statusToken
    userAgent := some userAgent
    latency := some latency
    model := some model
    apiKey := some apiKey
    error := some error
    requestBody := if tail = [] ∨ tail = "\"-\"".toList then none
      else some (((takeQuoted tail).map (·.1)).getD tail) }

theorem parseAccessLine_eq_some {line ip time rest s : Text} {entry : LogEntry}
    (hip : splitOnce " - - [".toList line = some (ip, rest))
    (htime : splitOnce "] ".toList rest = some (time, s)) :
    parseAccessLine line = some entry ↔
      ∃ request r₁ referer r₂ userAgent r₃ model r₄ apiKey r₅ error r₆,
        takeQuoted s = some (request, r₁) ∧
        takeQuoted (nextToken (nextToken r₁).2).2 = some (referer, r₂) ∧
        takeQuoted r₂ = some (userAgent, r₃) ∧
        takeQuoted (nextToken r₃).2 = some (model, r₄) ∧
        takeQuoted r₄ = some (apiKey, r₅) ∧
        takeQuoted r₅ = some (error, r₆) ∧
        entry = foundEntry ip time request (nextToken r₁).1 userAgent (nextToken r₃).1 model apiKey
          error r₆ := by
  simp only [parseAccessLine, hip, htime, Option.bind_eq_bind, Option.bind_some,
    Option.bind_eq_some_iff, Prod.exists, Option.pure_def, Option.some.injEq, foundEntry]
  constructor
  · rintro ⟨request, r₁, h₁, referer, r₂, h₂, userAgent, r₃, h₃, model, r₄, h₄, apiKey, r₅, h₅,
      error, r₆, h₆, rfl⟩
    exact ⟨request, r₁, referer, r₂, userAgent, r₃, model, r₄, apiKey, r₅, error, r₆, h₁, h₂, h₃,
      h₄, h₅, h₆, rfl⟩
  · rintro ⟨request, r₁, referer, r₂, userAgent, r₃, model, r₄, apiKey, r₅, error, r₆, h₁, h₂, h₃,
      h₄, h₅, h₆, rfl⟩
    exact ⟨request, r₁, h₁, referer, r₂, h₂, userAgent, r₃, h₃, model, r₄, h₄, apiKey, r₅, h₅,
      error, r₆, h₆, rfl⟩

theorem trimStart_blank (s : Text) : trimStart (' ' :: s) = trimStart s :=
  List.dropWhile_cons_of_pos (by decide)

theorem trimStart_cons {c : Char} (hc : isWhiteSpace c = false) (s : Text) :
    trimStart (c :: s) = c :: s :=
  List.dropWhile_cons_of_neg (by rw [hc]; exact Bool.false_ne_true)

theorem trimStart_plain {word : Text} (hword : Plain word) (s : Text) :
    trimStart (word ++ s) = word ++ s := by
  obtain ⟨hne, hplain⟩ := hword
  cases word with
  | nil => exact absurd rfl hne
  | cons c word => exact trimStart_cons (hplain c List.mem_cons_self).1 _

theorem nextToken_plain {word s rest : Text} (hword : Plain word)
    (hs : trimStart s = word ++ ' ' :: rest) : nextToken s = (word, trimStart rest) := by
  have hchars : ∀ c ∈ word, (!isWhiteSpace c) = true := by
    intro c hc
    rw [(hword.2 c hc).1, Bool.not_false]
  rw [nextToken, hs, List.takeWhile_append_of_pos hchars, List.dropWhile_append_of_pos hchars,
    List.takeWhile_cons_of_neg (by decide), List.dropWhile_cons_of_neg (by decide),
    trimStart_blank, List.append_nil]

theorem nextToken_suffix (s : Text) : ∃ skipped, s = skipped ++ (nextToken s).2 := by
  have hsuffix : (nextToken s).2 <:+ s :=
    (List.dropWhile_suffix _).trans ((List.dropWhile_suffix _).trans (List.dropWhile_suffix _))
  obtain ⟨skipped, heq⟩ := hsuffix
  exact ⟨skipped, heq.symm⟩

theorem digit_range {c : Char} (h : c.isDigit = true) : 48 ≤ c.toNat ∧ c.toNat ≤ 57 := by
  rw [Char.isDigit, Bool.and_eq_true, decide_eq_true_eq, decide_eq_true_eq] at h
  exact ⟨UInt32.le_iff_toNat_le.mp h.1, UInt32.le_iff_toNat_le.mp h.2⟩

theorem ne_of_isDigit {c d : Char} (h : c.isDigit = true) (hd : d.isDigit = false) : c ≠ d := by
  rintro rfl
  rw [h] at hd
  cases hd

theorem plain_repr (n : ℕ) : Plain n.repr.toList := by
  rw [Nat.toList_repr]
  refine ⟨Nat.toDigits_ne_nil, fun c hc ↦ ?_⟩
  have hdigit := Nat.isDigit_of_mem_toDigits (by decide) (by decide) hc
  obtain ⟨hlow, hhigh⟩ := digit_range hdigit
  refine ⟨?_, ne_of_isDigit hdigit (by decide), ne_of_isDigit hdigit (by decide),
    ne_of_isDigit hdigit (by decide)⟩
  rw [isWhiteSpace]
  simp only [Bool.or_eq_false_iff, Bool.and_eq_false_iff, decide_eq_false_iff_not, beq_eq_false_iff_ne]
  omega

theorem foldl_digits (s : Text) (n : ℕ) :
    s.foldl (fun (n : ℤ) c ↦ 10 * n + (c.toNat - '0'.toNat : ℕ)) n = Nat.ofDigitChars 10 s n := by
  induction s generalizing n with
  | nil => rfl
  | cons c s ih =>
    rw [List.foldl_cons, Nat.ofDigitChars_cons, ← ih]
    push_cast
    rfl

theorem parseI64_repr {n : ℕ} (hn : n ≤ 0x7fffffffffffffff) : parseI64 n.repr.toList = some (n : ℤ) := by
  have hdigits : (Nat.toDigits 10 n).all Char.isDigit = true := by
    rw [List.all_eq_true]
    exact fun c hc ↦ Nat.isDigit_of_mem_toDigits (by decide) (by decide) hc
  have hvalue := foldl_digits (Nat.toDigits 10 n) 0
  rw [Nat.ofDigitChars_ten_toDigits] at hvalue
  rw [Nat.toList_repr]
  cases hlist : Nat.toDigits 10 n with
  | nil => exact absurd hlist Nat.toDigits_ne_nil
  | cons c s =>
    rw [hlist] at hdigits hvalue
    have hc : c.isDigit = true := List.all_eq_true.mp hdigits c List.mem_cons_self
    rw [Nat.cast_zero] at hvalue
    have hminus : c ≠ '-' := ne_of_isDigit hc (by decide)
    have hplus : c ≠ '+' := ne_of_isDigit hc (by decide)
    have hhead : (c :: s).head? ≠ some '-' := fun h ↦ hminus (Option.some.inj h)
    have hnumber : (-0x8000000000000000 : ℤ) ≤ n ∧ (n : ℤ) ≤ 0x7fffffffffffffff := by omega
    rw [parseI64]
    · dsimp only
      rw [if_pos ⟨List.cons_ne_nil _ _, hdigits⟩, if_neg hhead, hvalue, if_pos hnumber]
    · exact fun rest h ↦ hminus (List.cons.inj h).1
    · exact fun rest h ↦ hplus (List.cons.inj h).1

/-- The address does not look like what follows it, nor like the start of an interruption. -/
def PlainAddress (ip : Text) : Prop := ¬" - - [".toList <:+: ip ∧ parseInterrupted ip = none

theorem not_interrupted_append {rest tail : Text} (hrest : ¬streamInterrupted <+: trimStart rest)
    (htail : ¬streamInterrupted <+: trimStart tail) :
    ¬streamInterrupted <+: trimStart (rest ++ ' ' :: tail) := by
  intro h
  rw [trimStart, List.dropWhile_append] at h
  split at h
  · rw [← trimStart, trimStart_blank] at h
    exact htail h
  · rw [← trimStart] at h
    rcases List.prefix_or_prefix_of_prefix h (List.prefix_append _ _) with hwhole | ⟨m, hm⟩
    · exact hrest hwhole
    · rw [← hm, List.prefix_append_right_inj] at h
      cases m with
      | nil =>
        rw [List.append_nil] at hm
        exact hrest (hm ▸ List.prefix_rfl)
      | cons c m =>
        have hblank : ' ' ∈ streamInterrupted := by
          rw [← hm, ← (List.cons_prefix_cons.mp h).1]
          exact List.mem_append_right _ List.mem_cons_self
        exact absurd hblank (by decide)

theorem not_interrupted_quote (text : Text) : ¬streamInterrupted <+: '"' :: text := by
  intro h
  exact absurd (List.cons_prefix_cons.mp h).1 (by decide)

theorem parseInterrupted_line {ip time text : Text} (hip : parseInterrupted ip = none)
    (htime : ']' ∉ time) :
    parseInterrupted (ip ++ (" - - [".toList ++ (time ++ ("] ".toList ++ '"' :: text)))) = none := by
  have hnext : ¬streamInterrupted <+: trimStart ('"' :: text) := by
    rw [trimStart_cons (by decide)]
    exact not_interrupted_quote text
  cases ip with
  | nil => rfl
  | cons c ip =>
    by_cases hc : c = '['
    · subst hc
      rw [List.cons_append, parseInterrupted]
      rw [parseInterrupted] at hip
      by_cases hclose : ']' ∈ ip
      · obtain ⟨a, b, rfl, ha⟩ := List.eq_append_cons_of_mem hclose
        rw [splitOnceChar_append ha, Option.bind_some] at hip
        rw [List.append_assoc, List.cons_append, splitOnceChar_append ha, Option.bind_some]
        have hb : ¬streamInterrupted <+: trimStart b := by
          intro hb
          simp [hb] at hip
        refine if_neg ?_
        refine not_interrupted_append hb ?_
        intro h
        exact absurd (List.cons_prefix_cons.mp h).1 (by decide)
      · have hnot : ']' ∉ ip ++ (" - - [".toList ++ time) := by
          simp only [List.mem_append, not_or]
          exact ⟨hclose, by decide, htime⟩
        have hline : ip ++ (" - - [".toList ++ (time ++ ("] ".toList ++ '"' :: text))) =
            (ip ++ (" - - [".toList ++ time)) ++ ']' :: ' ' :: '"' :: text := by simp
        rw [hline, splitOnceChar_append hnot, Option.bind_some]
        refine if_neg ?_
        rw [trimStart_blank]
        exact hnext
    · rw [List.cons_append, parseInterrupted]
      rintro stripped heq
      exact hc (List.cons.inj heq).1

theorem bodyText_quoted (unprintable : Char → Bool) (resp : Response) :
    ∃ body, bodyText unprintable resp = '"' :: (body ++ ['"']) ∧ QuotesEscaped body := by
  rw [bodyText]
  cases loggedBody resp with
  | none => exact ⟨['-'], rfl, quotesEscaped_of_clean (by decide)⟩
  | some body => exact ⟨_, rfl, quotesEscaped_escaped unprintable body.toList⟩

theorem trimEnd_errorLine (unprintable : Char → Bool) (fields : RequestFields) (resp : Response) :
    trimEnd (errorLine unprintable fields resp) = errorLine unprintable fields resp := by
  obtain ⟨body, hbody, -⟩ := bodyText_quoted unprintable resp
  have hquote : ['"'] <:+ errorLine unprintable fields resp := by
    rw [errorLine_eq]
    simp only [afterTime, afterRequest, afterReferer, afterAgent, afterModel, afterKey, afterError,
      hbody, ← List.cons_append, ← List.append_assoc]
    exact List.suffix_append _ _
  obtain ⟨line, hline⟩ := hquote
  rw [← hline]
  exact trimEnd_concat (by decide) line

theorem parseLine_errorLine (unprintable : Char → Bool) {fields : HttpFields} {resp : Response}
    (hip : PlainAddress fields.clientIp.toList) :
    parseLine (errorLine unprintable fields.toRequestFields resp) =
      (parseAccessLine (errorLine unprintable fields.toRequestFields resp)).getD .unparsed := by
  have hinterrupted : parseInterrupted (errorLine unprintable fields.toRequestFields resp) =
      none := by
    rw [errorLine_eq, afterTime]
    exact parseInterrupted_line hip.2 fields.time_open
  have hne : errorLine unprintable fields.toRequestFields resp ≠ [] := by
    rw [errorLine_eq]
    simp
  rw [parseLine, trimEnd_errorLine, hinterrupted, Option.getD_none, if_neg hne]

end Reader

section Places

variable {rest value : Text}

theorem clean_plain {word : Text} (h : Plain word) : Clean word :=
  ⟨fun hmem ↦ (h.2 _ hmem).2.1 rfl, fun hmem ↦ (h.2 _ hmem).2.2.1 rfl⟩

theorem plain_noBlank {word : Text} (h : Plain word) : ' ' ∉ word :=
  fun hmem ↦ absurd (h.2 _ hmem).1 (by decide)

theorem plain_noBrace {word : Text} (h : Plain word) : '}' ∉ word :=
  fun hmem ↦ (h.2 _ hmem).2.2.2 rfl

def pathOf (request : Text) : Text :=
  ((request.dropWhile (· ≠ ' ')).drop 1).takeWhile (· ≠ ' ')

theorem pathOf_append {method : Text} (h : ' ' ∉ method) (s : Text) :
    pathOf (method ++ ' ' :: s) = s.takeWhile (· ≠ ' ') := by
  have hne : ∀ c ∈ method, (decide (c ≠ ' ')) = true := by
    intro c hc
    rw [decide_eq_true_eq]
    rintro rfl
    exact h hc
  rw [pathOf, List.dropWhile_append_of_pos hne, List.dropWhile_cons_of_neg (by decide),
    List.drop_succ_cons, List.drop_zero]

theorem length_takeWhile_blank_le (x s : Text) :
    ((x ++ ' ' :: s).takeWhile (· ≠ ' ')).length ≤ x.length := by
  induction x with
  | nil => exact Nat.le_of_eq (by simp)
  | cons c x ih =>
    rw [List.cons_append, List.takeWhile_cons]
    split
    · exact Nat.succ_le_succ ih
    · exact Nat.zero_le _

theorem request_read {method uri version tail : Text} (hmethod : Plain method)
    (hversion : Plain version)
    (h : Reads ((method ++ ' ' :: (uri ++ ' ' :: version)) ++ '"' :: tail) value rest)
    (hpath : pathOf value = uri) :
    Clean uri ∧ rest = tail ∨ ∃ p, tail = p ++ '"' :: rest ∧ '}' ∈ p := by
  have hfront : Clean (method ++ [' ']) := clean_append.mpr ⟨clean_plain hmethod, by decide⟩
  have htext : (method ++ ' ' :: (uri ++ ' ' :: version)) ++ '"' :: tail =
      (method ++ [' ']) ++ (uri ++ ' ' :: (version ++ '"' :: tail)) := by simp
  rw [htext] at h
  obtain ⟨v, hvalue, hv⟩ := reads_append hfront h
  have huri : v.takeWhile (· ≠ ' ') = uri := by
    rw [← hpath, hvalue, List.append_assoc, List.singleton_append,
      pathOf_append (plain_noBlank hmethod)]
  obtain ⟨start, c, hlast⟩ : ∃ start c, version = start ++ [c] :=
    ⟨_, _, (List.dropLast_append_getLast hversion.1).symm⟩
  have hc : c ≠ '\\' := by
    have hmem : c ∈ version := by
      rw [hlast]
      exact List.mem_append_right _ List.mem_cons_self
    exact (hversion.2 c hmem).2.2.1
  have hcross : uri ++ ' ' :: (version ++ '"' :: tail) =
      (uri ++ ' ' :: start) ++ c :: '"' :: tail := by
    rw [hlast]
    simp
  rcases hv.crosses hcross hc with hlong | hend | hbeyond
  · exfalso
    obtain ⟨read, hread, hconsumed, -⟩ := hv.consumed
    have hle := length_le_of_read hconsumed
    have hpathLe : uri.length ≤ v.length := by
      rw [← huri]
      exact (List.takeWhile_prefix _).length_le
    rcases quote_split hread.symm with ⟨n, hn, -⟩ | ⟨n, hn, -⟩
    · have hversionQuote : n ++ '"' :: rest = (' ' :: version) ++ '"' :: tail := by
        rw [← hn]
        rfl
      rcases quote_split hversionQuote with ⟨m, hm, -⟩ | ⟨m, hm, -⟩
      · have hlength := congrArg List.length hm
        simp only [List.length_append, List.length_cons] at hlength
        omega
      · have hmem : '"' ∈ ' ' :: version := by
          rw [hm]
          exact List.mem_append_right _ List.mem_cons_self
        rcases List.mem_cons.mp hmem with hmem | hmem
        · exact absurd hmem (by decide)
        · exact (clean_plain hversion).1 hmem
    · have hlength := congrArg List.length hn
      simp only [List.length_append, List.length_cons] at hlength
      omega
  · obtain ⟨x, hx, hread, -⟩ := hv.through rfl hend (.inr rfl) (clean_plain hversion)
      (plain_noBrace hversion)
    rcases hread with ⟨rfl, hclean⟩ | hshort
    · exact .inl ⟨hclean, hend⟩
    · have hle := length_takeWhile_blank_le x version
      rw [← hx, huri] at hle
      omega
  · exact .inr hbeyond

theorem concat_quote_blanks {p a ws : Text} {c : Char} (hws : ∀ w ∈ ws, isWhiteSpace w = true)
    (h : p ++ '"' :: ws = a ++ [c]) : c = '"' ∧ ws = [] ∧ p = a ∨
      isWhiteSpace c = true ∧ ∃ ws', ws = ws' ++ [c] ∧ p ++ '"' :: ws' = a := by
  rcases List.eq_nil_or_concat ws with rfl | ⟨ws', w, rfl⟩
  · obtain ⟨hp, hc⟩ := List.append_inj' h rfl
    exact .inl ⟨(List.cons.inj hc).1.symm, rfl, hp⟩
  · rw [List.concat_eq_append, ← List.cons_append, ← List.append_assoc] at h
    obtain ⟨hp, hc⟩ := List.append_inj' h rfl
    obtain ⟨rfl, -⟩ := List.cons.inj hc
    rw [List.concat_eq_append] at hws ⊢
    exact .inr ⟨hws w (List.mem_append_right _ List.mem_cons_self), ws', rfl, hp⟩

/-- From a place beyond its opening quote the error is read between the two last fields, or the body
is read for it. -/
theorem late_error {error body s text : Text} (herror : QuotesEscaped error)
    (hbody : QuotesEscaped body) (hs : Beyond (error ++ '"' :: ' ' :: '"' :: (body ++ ['"'])) s)
    (htrim : trimStart s = '"' :: text) (hne : text ≠ []) :
    text = ' ' :: '"' :: (body ++ ['"']) ∧ '"' ∈ error ∨
      text = body ++ ['"'] ∧ '}' ∈ error := by
  obtain ⟨p, hp, hbrace⟩ := hs
  have hws : ∀ w ∈ s.takeWhile isWhiteSpace, isWhiteSpace w = true :=
    fun w hw ↦ List.mem_takeWhile_imp hw
  have hsplit : s = s.takeWhile isWhiteSpace ++ '"' :: text := by
    rw [← htrim, trimStart, List.takeWhile_append_dropWhile]
  generalize s.takeWhile isWhiteSpace = ws at hws hsplit
  have hback : ∀ a₀, p ++ '"' :: ws ≠ a₀ ++ ['\\'] := by
    intro a₀ heq
    rcases concat_quote_blanks hws heq with ⟨hc, -⟩ | ⟨hc, -⟩
    · exact absurd hc (by decide)
    · exact absurd hc (by decide)
  have hline : (p ++ '"' :: ws) ++ '"' :: text = error ++ '"' :: ' ' :: '"' :: (body ++ ['"']) := by
    rw [hp, hsplit]
    simp
  rcases quote_split hline with ⟨n, hn, hfront⟩ | ⟨n, hn, -⟩
  · rcases n with _ | ⟨c, _ | ⟨d, _ | ⟨e, n⟩⟩⟩
    · refine .inl ⟨(List.cons.inj hn).2.symm, ?_⟩
      rw [← List.append_nil error, ← hfront]
      exact List.mem_append_right _ List.mem_cons_self
    · simp at hn
    · simp only [List.cons_append, List.nil_append, List.cons.injEq] at hn
      obtain ⟨rfl, rfl, -, rfl⟩ := hn
      refine .inr ⟨rfl, ?_⟩
      have hquote : p ++ '"' :: ws = (error ++ ['"']) ++ [' '] := by
        rw [hfront]
        simp
      rcases concat_quote_blanks hws hquote with ⟨hc, -⟩ | ⟨-, ws', rfl, hp'⟩
      · exact absurd hc (by decide)
      · have hws' : ∀ w ∈ ws', isWhiteSpace w = true :=
          fun w hw ↦ hws w (List.mem_append_left _ hw)
        rcases concat_quote_blanks hws' hp' with ⟨-, -, rfl⟩ | ⟨hc, -⟩
        · exact hbrace
        · exact absurd hc (by decide)
    · exfalso
      simp only [List.cons_append, List.cons.injEq] at hn
      obtain ⟨rfl, rfl, rfl, htail⟩ := hn
      rcases quote_split htail.symm with ⟨m, hm, -⟩ | ⟨m, hm, -⟩
      · have hlength := congrArg List.length hm
        simp only [List.length_append, List.length_cons, List.length_nil] at hlength
        exact hne (List.length_eq_zero_iff.mp (by omega))
      · obtain ⟨a₀, rfl⟩ := hbody n m hm
        refine hback (error ++ '"' :: ' ' :: '"' :: a₀) ?_
        rw [hfront]
        simp
  · obtain ⟨a₀, ha₀⟩ := herror _ n hn
    exact absurd ha₀ (hback a₀)

end Places

section InPlace

variable (unprintable : Char → Bool) (fields : HttpFields) (resp : Response)

theorem latency_plain : Plain (fields.latency.toList ++ ['s']) := by
  obtain ⟨-, hplain⟩ := fields.latency_plain
  refine ⟨List.append_ne_nil_of_right_ne_nil _ (List.cons_ne_nil _ _), fun c hc ↦ ?_⟩
  rcases List.mem_append.mp hc with hc | hc
  · exact hplain c hc
  · rw [List.mem_singleton.mp hc]
    decide

theorem nextToken_status :
    nextToken (afterRequest unprintable fields.toRequestFields resp) =
      (resp.status.asU16.repr.toList,
        fields.bodyBytes.toList ++ ' ' :: '"' :: '-' :: '"' ::
          afterReferer unprintable fields.toRequestFields resp) := by
  have hword := plain_repr resp.status.asU16
  have htrim : trimStart (afterRequest unprintable fields.toRequestFields resp) =
      resp.status.asU16.repr.toList ++ ' ' :: (fields.bodyBytes.toList ++ ' ' :: '"' :: '-' :: '"' ::
        afterReferer unprintable fields.toRequestFields resp) := by
    rw [afterRequest, statusGap, List.cons_append, trimStart_blank, List.append_assoc,
      trimStart_plain hword]
    rfl
  rw [nextToken_plain hword htrim, trimStart_plain fields.bodyBytes_plain]

theorem nextToken_bodyBytes :
    nextToken (fields.bodyBytes.toList ++ ' ' :: '"' :: '-' :: '"' ::
        afterReferer unprintable fields.toRequestFields resp) =
      (fields.bodyBytes.toList,
        '"' :: '-' :: '"' :: afterReferer unprintable fields.toRequestFields resp) := by
  rw [nextToken_plain fields.bodyBytes_plain (trimStart_plain fields.bodyBytes_plain _),
    trimStart_cons (by decide)]

theorem nextToken_latency :
    nextToken (afterAgent unprintable fields.toRequestFields resp) =
      (fields.latency.toList ++ ['s'],
        '"' :: ((loggedModel resp).toList ++
          '"' :: afterModel unprintable fields.toRequestFields resp)) := by
  have htrim : trimStart (afterAgent unprintable fields.toRequestFields resp) =
      (fields.latency.toList ++ ['s']) ++ ' ' :: '"' :: ((loggedModel resp).toList ++
        '"' :: afterModel unprintable fields.toRequestFields resp) := by
    rw [afterAgent, latencyGap, List.cons_append, trimStart_blank,
      trimStart_plain (latency_plain fields)]
  rw [nextToken_plain (latency_plain fields) htrim, trimStart_cons (by decide)]

theorem takeQuoted_error :
    takeQuoted (afterKey unprintable resp) =
      some ((loggedError resp).toList, afterError unprintable resp) := by
  refine takeQuoted_debugStr unprintable (loggedError resp) ?_
  rw [afterKey, trimStart_blank, trimStart_cons (by decide), debugStr, errorText]
  simp

theorem trim_bodyText : trim (afterError unprintable resp) = bodyText unprintable resp := by
  obtain ⟨body, hbody, -⟩ := bodyText_quoted unprintable resp
  rw [afterError, hbody, trim, trimStart_blank, trimStart_cons (by decide), ← List.cons_append,
    trimEnd_concat (by decide)]

theorem parsed_body (hdash : loggedBody resp ≠ some "-") :
    (if trim (afterError unprintable resp) = [] ∨
        trim (afterError unprintable resp) = "\"-\"".toList then none
      else some (((takeQuoted (trim (afterError unprintable resp))).map (·.1)).getD
        (trim (afterError unprintable resp)))) = (loggedBody resp).map String.toList := by
  rw [trim_bodyText, bodyText]
  cases hbody : loggedBody resp with
  | none => rfl
  | some body =>
    have hread : takeQuoted (debugStr unprintable body) = some (body.toList, []) := by
      refine takeQuoted_debugStr unprintable body ?_
      rw [List.append_nil, debugStr, List.cons_append, trimStart_cons (by decide)]
    have hne : debugStr unprintable body ≠ "\"-\"".toList := by
      intro heq
      have hread' : takeQuoted "\"-\"".toList = some (['-'], []) := by decide
      rw [heq, hread'] at hread
      obtain ⟨htext, -⟩ := Prod.mk.inj (Option.some.inj hread)
      refine hdash ?_
      rw [hbody, ← String.ofList_toList (s := body), ← htext]
    have hnil : debugStr unprintable body ≠ [] := by
      rw [debugStr]
      exact List.cons_ne_nil _ _
    rw [Option.map_some, Option.getD_some, if_neg (not_or.mpr ⟨hnil, hne⟩), hread]
    rfl

end InPlace

section Entry

def entriesOf (line : Text) : List CappedEntry :=
  (lines '\n' (line ++ ['\n'])).map parseLineCapped

theorem entriesOf_oneLine {line : Text} (h : '\n' ∉ line) :
    entriesOf line = [parseLineCapped line] := by
  rw [entriesOf, lines_line h]
  rfl

theorem oneLine_of_entriesOf {line : Text} {entry : CappedEntry} (h : entriesOf line = [entry]) :
    '\n' ∉ line := by
  intro hmem
  obtain ⟨a, b, rfl, ha⟩ := List.eq_append_cons_of_mem hmem
  have hmore : lines '\n' (b ++ ['\n']) ≠ [] :=
    lines_ne_nil (List.append_ne_nil_of_right_ne_nil _ (List.cons_ne_nil _ _))
  rw [entriesOf, List.append_assoc, List.cons_append, lines_line ha, List.map_cons] at h
  exact hmore (List.map_eq_nil_iff.mp (List.cons.inj h).2)

variable (unprintable : Char → Bool) {fields : HttpFields} {resp : Response}

/-- The entry has what the line of a failed request was made of. -/
structure ReadBack (fields : RequestFields) (resp : Response) (entry : CappedEntry) : Prop where
  status : entry.status = some (resp.status.asU16 : ℤ)
  path : entry.path = some fields.uri.toList
  userAgent : entry.userAgent = some fields.userAgent.toList
  model : entry.model = some (loggedModel resp).toList
  apiKey : entry.apiKey = some fields.apiKeyForError.toList
  error : entry.error = some (truncateError (loggedError resp).toList).1
  requestBody : entry.requestBody = (loggedBody resp).map String.toList

structure CleanRequest (fields : RequestFields) (resp : Response) : Prop where
  uri : Clean fields.uri.toList
  userAgent : Clean fields.userAgent.toList
  model : Clean (loggedModel resp).toList
  apiKey : Clean fields.apiKeyForError.toList
  model_oneLine : OneLine (loggedModel resp)
  requestBody : loggedBody resp ≠ some "-"

theorem splitOnce_ip (hip : PlainAddress fields.clientIp.toList) (text : Text) :
    splitOnce " - - [".toList (fields.clientIp.toList ++ (" - - [".toList ++ text)) =
      some (fields.clientIp.toList, text) :=
  splitOnce_append (p := " - - ".toList) (z := '[') (by decide) hip.1

theorem splitOnce_time (fields : HttpFields) (text : Text) :
    splitOnce "] ".toList (fields.timeStr.toList ++ ("] ".toList ++ text)) =
      some (fields.timeStr.toList, text) := by
  refine splitOnce_append (p := "]".toList) (z := ' ') (by decide) ?_
  rintro ⟨front, back, heq⟩
  refine fields.time_open ?_
  rw [← heq]
  simp

theorem readBack_of_clean (hip : PlainAddress fields.clientIp.toList)
    (h : CleanRequest fields.toRequestFields resp) :
    ∃ entry, entriesOf (errorLine unprintable fields.toRequestFields resp) = [entry] ∧
      ReadBack fields.toRequestFields resp entry := by
  have hline := @errorLine_oneLine unprintable fields.toRequestFields resp h.model_oneLine
  have hrequest : Clean (requestLine fields.toRequestFields) := by
    rw [requestLine, clean_append, clean_cons, clean_append, clean_cons]
    exact ⟨clean_plain fields.method_plain, by decide, h.uri, by decide,
      clean_plain fields.version_plain⟩
  have hpath : pathOf (requestLine fields.toRequestFields) = fields.uri.toList := by
    have hne : ∀ c ∈ fields.uri.toList, (decide (c ≠ ' ')) = true := by
      intro c hc
      rw [decide_eq_true_eq]
      rintro rfl
      exact fields.uri_noSpace hc
    rw [requestLine, pathOf_append (plain_noBlank fields.method_plain),
      List.takeWhile_append_of_pos hne, List.takeWhile_cons_of_neg (by decide), List.append_nil]
  have hread : parseAccessLine (errorLine unprintable fields.toRequestFields resp) =
      some (foundEntry fields.clientIp.toList fields.timeStr.toList
        (requestLine fields.toRequestFields) resp.status.asU16.repr.toList
        fields.userAgent.toList (fields.latency.toList ++ ['s']) (loggedModel resp).toList
        fields.apiKeyForError.toList (loggedError resp).toList (afterError unprintable resp)) := by
    rw [errorLine_eq, parseAccessLine_eq_some (splitOnce_ip hip _) (splitOnce_time fields _)]
    refine ⟨requestLine fields.toRequestFields, afterRequest unprintable fields.toRequestFields resp,
      ['-'], afterReferer unprintable fields.toRequestFields resp, fields.userAgent.toList,
      afterAgent unprintable fields.toRequestFields resp, (loggedModel resp).toList,
      afterModel unprintable fields.toRequestFields resp, fields.apiKeyForError.toList,
      afterKey unprintable resp, (loggedError resp).toList, afterError unprintable resp,
      ?_, ?_, ?_, ?_, ?_, takeQuoted_error unprintable resp, ?_⟩
    · exact takeQuoted_clean hrequest (trimStart_cons (by decide) _)
    · rw [nextToken_status, nextToken_bodyBytes]
      exact takeQuoted_clean (w := ['-']) (by decide) (trimStart_cons (by decide) _)
    · exact takeQuoted_clean h.userAgent
        ((trimStart_blank _).trans (trimStart_cons (by decide) _))
    · rw [nextToken_latency]
      exact takeQuoted_clean h.model (trimStart_cons (by decide) _)
    · exact takeQuoted_clean h.apiKey ((trimStart_blank _).trans (trimStart_cons (by decide) _))
    · rw [nextToken_status, nextToken_latency]
  refine ⟨_, entriesOf_oneLine hline, ?_⟩
  rw [parseLineCapped, parseLine_errorLine unprintable hip, hread, Option.getD_some]
  obtain ⟨hstatus, hpathEq, hagent, hmodel, hkey, hbody⟩ := capError_fields
    (foundEntry fields.clientIp.toList fields.timeStr.toList
        (requestLine fields.toRequestFields) resp.status.asU16.repr.toList
        fields.userAgent.toList (fields.latency.toList ++ ['s']) (loggedModel resp).toList
        fields.apiKeyForError.toList (loggedError resp).toList (afterError unprintable resp))
  exact
    { status := hstatus.trans (parseI64_repr (by have hthree := resp.status.three_digits; omega))
      path := hpathEq.trans (congrArg some hpath)
      userAgent := hagent
      model := hmodel
      apiKey := hkey
      error := capError_error _
      requestBody := hbody.trans (parsed_body unprintable resp h.requestBody) }

theorem beyond_agent {r₁ : Text} {p : Text}
    (h : afterRequest unprintable fields.toRequestFields resp = p ++ '"' :: r₁) (hbrace : '}' ∈ p) :
    Beyond (fields.userAgent.toList ++ '"' :: afterAgent unprintable fields.toRequestFields resp)
      r₁ := by
  have hfront : p ++ '"' :: r₁ =
      (statusGap fields.toRequestFields resp ++ [' ', '"', '-', '"', ' ']) ++
        '"' :: (fields.userAgent.toList ++
          '"' :: afterAgent unprintable fields.toRequestFields resp) := by
    rw [← h, afterRequest, afterReferer]
    simp
  have hnone : '}' ∉ statusGap fields.toRequestFields resp ++ [' ', '"', '-', '"', ' '] := by
    have hstatus := plain_noBrace (plain_repr resp.status.asU16)
    have hbytes := plain_noBrace fields.bodyBytes_plain
    simp only [statusGap, List.mem_append, List.mem_cons, not_or, List.not_mem_nil, not_false_iff,
      and_true]
    exact ⟨⟨by decide, hstatus, by decide, hbytes⟩, by decide, by decide, by decide, by decide,
      by decide⟩
  rcases quote_split hfront with ⟨n, hn, rfl⟩ | ⟨n, hn, -⟩
  · rcases List.mem_append.mp hbrace with hmem | hmem
    · exact absurd hmem hnone
    · cases n with
      | nil => exact absurd hmem List.not_mem_nil
      | cons c n =>
        obtain ⟨rfl, hinner⟩ := List.cons.inj hn
        refine ⟨n, hinner, ?_⟩
        rcases List.mem_cons.mp hmem with hmem | hmem
        · exact absurd hmem (by decide)
        · exact hmem
  · exact absurd (hn ▸ List.mem_append_left _ hbrace) hnone

theorem beyond_takeQuoted {inner s skipped t v rest : Text} (hs : Beyond inner s)
    (ht : s = skipped ++ t) (h : takeQuoted t = some (v, rest)) : Beyond inner rest := by
  obtain ⟨p, hp, hbrace⟩ := hs
  obtain ⟨text, htext, hreads⟩ := reads_of_takeQuoted h
  obtain ⟨ws, hws⟩ := trimStart_eq htext
  obtain ⟨read, hread, -⟩ := hreads.consumed
  refine ⟨p ++ '"' :: (skipped ++ (ws ++ '"' :: read)), ?_, List.mem_append_left _ hbrace⟩
  rw [hp, ht, hws, hread]
  simp

theorem error_inPlace (hdash : unprintable '-' = false) {r₅ error r₆ : Text}
    (hs : Beyond (errorText unprintable resp ++ '"' :: afterError unprintable resp) r₅)
    (h : takeQuoted r₅ = some (error, r₆))
    (herror : (truncateError error).1 = (truncateError (loggedError resp).toList).1)
    (hbody : loggedBody resp ≠ none → r₆ ≠ []) : False := by
  obtain ⟨body, hquoted, hescaped⟩ := bodyText_quoted unprintable resp
  rw [afterError, hquoted] at hs
  obtain ⟨text, htext, hreads⟩ := reads_of_takeQuoted h
  have hne : text ≠ [] := by
    rintro rfl
    cases hreads
  have hone : ∀ c : Char, (truncateError [c]).1 = [c] := by
    intro c
    have hsize : utf8Len [c] ≤ maxErrorBytes := by
      have hle : c.utf8Size ≤ 4 := Char.utf8Size_le_four c
      simp only [utf8Len, List.map_cons, List.map_nil, List.sum_cons, List.sum_nil, maxErrorBytes]
      omega
    rw [truncateError]
    exact congrArg Prod.fst (if_pos hsize)
  rcases late_error (quotesEscaped_escaped unprintable _) hescaped hs htext hne with
    ⟨rfl, hquote⟩ | ⟨rfl, hbrace⟩
  · have hblank : error = [' '] := (reads_clean (g := [' ']) (by decide) hreads).1
    rw [hblank, hone] at herror
    have hmem := mem_escaped unprintable hquote
    rw [truncateError_singleton herror.symm] at hmem
    exact absurd hmem (by decide)
  · have htrim : trimStart r₅ = bodyText unprintable resp := htext.trans hquoted.symm
    rw [bodyText] at htrim
    cases hlogged : loggedBody resp with
    | some logged =>
      rw [hlogged, Option.map_some, Option.getD_some] at htrim
      have hread := takeQuoted_debugStr unprintable logged (htrim.trans (List.append_nil _).symm)
      rw [h] at hread
      refine hbody (by rw [hlogged]; exact Option.some_ne_none _) ?_
      exact (Prod.mk.inj (Option.some.inj hread)).2
    | none =>
      rw [hlogged] at htrim
      have hread : takeQuoted r₅ = some (['-'], []) := takeQuoted_clean (by decide) htrim
      rw [h] at hread
      rw [(Prod.mk.inj (Option.some.inj hread)).1, hone] at herror
      have hprinted : escapeDebug unprintable '-' = ['-'] := by
        simp [escapeDebug, hdash]
      rw [truncateError_singleton herror.symm, List.flatMap_singleton, hprinted] at hbrace
      exact absurd hbrace (by decide)

theorem agent_place {request r₁ referer r₂ : Text}
    (h₁ : takeQuoted (afterTime unprintable fields.toRequestFields resp) = some (request, r₁))
    (h₂ : takeQuoted (nextToken (nextToken r₁).2).2 = some (referer, r₂))
    (hpath : pathOf request = fields.uri.toList) :
    Clean fields.uri.toList ∧ r₂ = afterReferer unprintable fields.toRequestFields resp ∨
      Beyond (fields.userAgent.toList ++ '"' :: afterAgent unprintable fields.toRequestFields resp)
        r₂ := by
  obtain ⟨text, htext, hreads⟩ := reads_of_takeQuoted h₁
  rw [afterTime, trimStart_cons (by decide)] at htext
  obtain ⟨-, rfl⟩ := List.cons.inj htext
  rcases request_read fields.method_plain fields.version_plain hreads hpath with
    ⟨hclean, rfl⟩ | ⟨p, hp, hbrace⟩
  · rw [nextToken_status, nextToken_bodyBytes] at h₂
    have hplace := takeQuoted_clean (w := ['-'])
      (r := afterReferer unprintable fields.toRequestFields resp) (by decide)
      (trimStart_cons (by decide) _)
    rw [List.singleton_append] at hplace
    rw [hplace] at h₂
    exact .inl ⟨hclean, (Prod.mk.inj (Option.some.inj h₂)).2.symm⟩
  · obtain ⟨front, hfront⟩ := nextToken_suffix r₁
    obtain ⟨front', hfront'⟩ := nextToken_suffix (nextToken r₁).2
    have hskipped : r₁ = (front ++ front') ++ (nextToken (nextToken r₁).2).2 := by
      rw [List.append_assoc, ← hfront', ← hfront]
    exact .inr (beyond_takeQuoted (beyond_agent unprintable hp hbrace) hskipped h₂)

/-- The error is read in its place, and the fields in front of it are clean, if they are read as
what they are. -/
theorem fields_clean (hdash : unprintable '-' = false) {r₂ r₃ r₄ r₅ error r₆ : Text}
    (hplace : Clean fields.uri.toList ∧
        r₂ = afterReferer unprintable fields.toRequestFields resp ∨
      Beyond (fields.userAgent.toList ++ '"' :: afterAgent unprintable fields.toRequestFields resp)
        r₂)
    (h₃ : takeQuoted r₂ = some (fields.userAgent.toList, r₃))
    (h₄ : takeQuoted (nextToken r₃).2 = some ((loggedModel resp).toList, r₄))
    (h₅ : takeQuoted r₄ = some (fields.apiKeyForError.toList, r₅))
    (h₆ : takeQuoted r₅ = some (error, r₆))
    (herror : (truncateError error).1 = (truncateError (loggedError resp).toList).1)
    (hbody : loggedBody resp ≠ none → r₆ ≠ []) :
    Clean fields.uri.toList ∧ Clean fields.userAgent.toList ∧ Clean (loggedModel resp).toList ∧
      Clean fields.apiKeyForError.toList ∧ r₅ = afterKey unprintable resp := by
  have hword := latency_plain fields
  have hgap : Clean (latencyGap fields.toRequestFields) :=
    clean_cons.mpr ⟨by decide, clean_plain hword⟩
  have hgapBrace : '}' ∉ latencyGap fields.toRequestFields := by
    rw [latencyGap, List.mem_cons, not_or]
    exact ⟨by decide, plain_noBrace hword⟩
  have hnil : '}' ∉ ([] : Text) := List.not_mem_nil
  have hagent : (Clean fields.uri.toList ∧ Clean fields.userAgent.toList) ∧
      r₃ = afterAgent unprintable fields.toRequestFields resp ∨
        Beyond ((loggedModel resp).toList ++ '"' :: afterModel unprintable fields.toRequestFields resp)
          r₃ := by
    rcases hplace with ⟨huri, rfl⟩ | hbeyond
    · have htrim : trimStart (afterReferer unprintable fields.toRequestFields resp) =
          '"' :: (fields.userAgent.toList ++
            '"' :: afterAgent unprintable fields.toRequestFields resp) :=
        (trimStart_blank _).trans (trimStart_cons (by decide) _)
      rcases takeQuoted_field hgap hgapBrace htrim h₃ with ⟨hclean, hrest⟩ | hbeyond
      · exact .inl ⟨⟨huri, hclean⟩, hrest⟩
      · exact .inr hbeyond
    · exact .inr (hbeyond.takeQuoted_field hgap hgapBrace (List.nil_append r₂).symm h₃)
  have hmodel : (Clean fields.uri.toList ∧ Clean fields.userAgent.toList ∧
      Clean (loggedModel resp).toList) ∧ r₄ = afterModel unprintable fields.toRequestFields resp ∨
        Beyond (fields.apiKeyForError.toList ++ '"' :: afterKey unprintable resp) r₄ := by
    rcases hagent with ⟨⟨huri, hagent⟩, rfl⟩ | hbeyond
    · rw [nextToken_latency] at h₄
      rcases takeQuoted_field clean_nil hnil (trimStart_cons (by decide) _) h₄ with
        ⟨hclean, hrest⟩ | hbeyond
      · exact .inl ⟨⟨huri, hagent, hclean⟩, hrest⟩
      · exact .inr hbeyond
    · obtain ⟨front, hfront⟩ := nextToken_suffix r₃
      exact .inr (hbeyond.takeQuoted_field (g := []) clean_nil hnil hfront h₄)
  have hkey : (Clean fields.uri.toList ∧ Clean fields.userAgent.toList ∧
      Clean (loggedModel resp).toList ∧ Clean fields.apiKeyForError.toList) ∧
        r₅ = afterKey unprintable resp ∨
      Beyond (errorText unprintable resp ++ '"' :: afterError unprintable resp) r₅ := by
    rcases hmodel with ⟨⟨huri, hagent, hmodel⟩, rfl⟩ | hbeyond
    · have htrim : trimStart (afterModel unprintable fields.toRequestFields resp) =
          '"' :: (fields.apiKeyForError.toList ++ '"' :: afterKey unprintable resp) :=
        (trimStart_blank _).trans (trimStart_cons (by decide) _)
      rcases takeQuoted_field clean_nil hnil htrim h₅ with ⟨hclean, hrest⟩ | hbeyond
      · exact .inl ⟨⟨huri, hagent, hmodel, hclean⟩, hrest⟩
      · exact .inr hbeyond
    · exact .inr (hbeyond.takeQuoted_field (g := []) clean_nil hnil (List.nil_append r₄).symm h₅)
  rcases hkey with ⟨⟨huri, hagent, hmodel, hkey⟩, hrest⟩ | hbeyond
  · exact ⟨huri, hagent, hmodel, hkey, hrest⟩
  · exact absurd (error_inPlace unprintable hdash hbeyond h₆ herror hbody) not_false

theorem clean_of_readBack (hdash : unprintable '-' = false)
    (hip : PlainAddress fields.clientIp.toList) {entry : CappedEntry}
    (hentries : entriesOf (errorLine unprintable fields.toRequestFields resp) = [entry])
    (hback : ReadBack fields.toRequestFields resp entry) :
    CleanRequest fields.toRequestFields resp := by
  have hone := oneLine_of_entriesOf hentries
  rw [entriesOf_oneLine hone, parseLineCapped, parseLine_errorLine unprintable hip] at hentries
  have hentry := (List.cons.inj hentries).1
  have hmodelLine : OneLine (loggedModel resp) := by
    intro hmem
    refine hone ?_
    have hpart : '\n' ∈ afterAgent unprintable fields.toRequestFields resp :=
      List.mem_append_right _ (List.mem_cons_of_mem _ (List.mem_cons_of_mem _
        (List.mem_append_left _ hmem)))
    rw [errorLine_eq, afterTime, afterRequest, afterReferer]
    simp only [List.mem_append, List.mem_cons, hpart, or_true]
  cases hread : parseAccessLine (errorLine unprintable fields.toRequestFields resp) with
  | none =>
    rw [hread, Option.getD_none] at hentry
    have hstatus := hback.status
    rw [← hentry] at hstatus
    cases hstatus
  | some found =>
    rw [hread, Option.getD_some] at hentry
    rw [errorLine_eq, parseAccessLine_eq_some (splitOnce_ip hip _) (splitOnce_time fields _)]
      at hread
    obtain ⟨request, r₁, referer, r₂, userAgent, r₃, model, r₄, apiKey, r₅, error, r₆, h₁, h₂, h₃,
      h₄, h₅, h₆, rfl⟩ := hread
    obtain ⟨-, hpathEq, hagentEq, hmodelEq, hkeyEq, hbodyEq⟩ := capError_fields
      (foundEntry fields.clientIp.toList fields.timeStr.toList request (nextToken r₁).1 userAgent
        (nextToken r₃).1 model apiKey error r₆)
    have herrorEq := capError_error
      (foundEntry fields.clientIp.toList fields.timeStr.toList request (nextToken r₁).1 userAgent
        (nextToken r₃).1 model apiKey error r₆)
    rw [hentry] at hpathEq hagentEq hmodelEq hkeyEq hbodyEq herrorEq
    obtain rfl : userAgent = fields.userAgent.toList :=
      Option.some.inj (hagentEq.symm.trans hback.userAgent)
    obtain rfl : model = (loggedModel resp).toList :=
      Option.some.inj (hmodelEq.symm.trans hback.model)
    obtain rfl : apiKey = fields.apiKeyForError.toList :=
      Option.some.inj (hkeyEq.symm.trans hback.apiKey)
    have hpath : pathOf request = fields.uri.toList :=
      Option.some.inj (hpathEq.symm.trans hback.path)
    have herror : (truncateError error).1 = (truncateError (loggedError resp).toList).1 :=
      Option.some.inj (herrorEq.symm.trans hback.error)
    have hbody : (if trim r₆ = [] ∨ trim r₆ = "\"-\"".toList then none
        else some (((takeQuoted (trim r₆)).map (·.1)).getD (trim r₆))) =
          (loggedBody resp).map String.toList := hbodyEq.symm.trans hback.requestBody
    have hrest : loggedBody resp ≠ none → r₆ ≠ [] := by
      rintro hlogged rfl
      have hnone : (loggedBody resp).map String.toList = none := hbody.symm.trans (if_pos (.inl rfl))
      exact hlogged (Option.map_eq_none_iff.mp hnone)
    obtain ⟨huri, hagent, hmodel, hkey, rfl⟩ := fields_clean unprintable hdash
      (agent_place unprintable h₁ h₂ hpath) h₃ h₄ h₅ h₆ herror hrest
    refine ⟨huri, hagent, hmodel, hkey, hmodelLine, ?_⟩
    intro hlogged
    have hprinted : escapeDebug unprintable '-' = ['-'] := by simp [escapeDebug, hdash]
    have htail : bodyText unprintable resp = "\"-\"".toList := by
      have hdebug : debugStr unprintable "-" = '"' :: (escapeDebug unprintable '-' ++ ['"']) := by
        simp [debugStr]
      rw [bodyText, hlogged, Option.map_some, Option.getD_some, hdebug, hprinted]
      rfl
    rw [takeQuoted_error] at h₆
    obtain ⟨-, rfl⟩ := Prod.mk.inj (Option.some.inj h₆)
    rw [trim_bodyText, htail, if_pos (.inr rfl), hlogged] at hbody
    cases hbody

/-- The line of a failed request is read as the request, in one entry, exactly if what is not
escaped is clean and the body is no dash. -/
theorem readBack_iff (hdash : unprintable '-' = false)
    (hip : PlainAddress fields.clientIp.toList) :
    (∃ entry, entriesOf (errorLine unprintable fields.toRequestFields resp) = [entry] ∧
      ReadBack fields.toRequestFields resp entry) ↔ CleanRequest fields.toRequestFields resp := by
  constructor
  · rintro ⟨entry, hentries, hback⟩
    exact clean_of_readBack unprintable hdash hip hentries hback
  · exact readBack_of_clean unprintable hip

end Entry

end QueQiao.AccessLog
