import QueQiao.Handlers.KeyValues
import QueQiao.Middleware.RequestLine

namespace QueQiao.AccessLog

open ErrorLogApi Lib.Lines StreamLoggers

section Line

variable (unprintable : Char → Bool) (fields : InterruptionFields) (i : ℕ) (x : Interruption)

def errorField : Text := "error".toList ++ '=' :: debugStr unprintable x.error

/-- What stands between the name of the model and the text of the error. -/
def backendGap : Text := " backend=".toList ++ (x.backend.toList ++ " error=".toList)

def modelFields : Text :=
  "model".toList ++ '=' :: (x.model.toList ++ ' ' :: ("backend".toList ++
    '=' :: (x.backend.toList ++ ' ' :: errorField unprintable x)))

def interruptionFields : Text :=
  "client".toList ++ '=' :: (fields.clientIp.toList ++ ' ' :: ("endpoint".toList ++
    '=' :: (x.endpoint.toList ++ ' ' :: modelFields unprintable x)))

theorem interruptionText_eq :
    interruptionText unprintable fields x = ' ' :: interruptionFields unprintable fields x := by
  unfold interruptionText interruptionFields modelFields errorField
  simp only [List.flatten_cons, List.flatten_nil, List.append_nil, List.append_assoc]
  rfl

theorem suffix_field {s t : Text} (h : s <:+ t) (key value : Text) :
    s <:+ key ++ '=' :: (value ++ ' ' :: t) :=
  h.trans (((List.suffix_cons _ _).trans (List.suffix_append _ _)).trans
    ((List.suffix_cons _ _).trans (List.suffix_append _ _)))

theorem interruptionFields_concat :
    ∃ front, interruptionFields unprintable fields x = 'c' :: (front ++ ['"']) := by
  have herror : ['"'] <:+ errorField unprintable x := by
    unfold errorField debugStr
    exact (List.suffix_append _ _).trans ((List.suffix_cons _ _).trans (List.suffix_append _ _))
  have hquote : ['"'] <:+ interruptionFields unprintable fields x :=
    suffix_field (suffix_field (suffix_field (suffix_field herror _ _) _ _) _ _) _ _
  obtain ⟨line, hline⟩ := hquote
  cases line with
  | nil => exact absurd (List.cons.inj hline).1 (by decide)
  | cons c line =>
    obtain ⟨rfl, -⟩ := List.cons.inj hline
    exact ⟨line, hline.symm⟩

theorem trim_interruptionText :
    trim (interruptionText unprintable fields x) = interruptionFields unprintable fields x := by
  obtain ⟨front, hfront⟩ := interruptionFields_concat unprintable fields x
  rw [interruptionText_eq, hfront, trim, trimStart_blank, trimStart_cons (by decide),
    ← List.cons_append, trimEnd_concat (by decide)]

theorem parseLine_interruptionLine :
    parseLine (interruptionLine unprintable fields i x) =
      (parseKvFields (interruptionText unprintable fields x).length
        (interruptionFields unprintable fields x)).foldl setField
          { kind := "stream_interrupted", time := some (fields.timeStr i).toList } := by
  obtain ⟨front, hfront⟩ := interruptionFields_concat unprintable fields x
  have htext : interruptionText unprintable fields x = (' ' :: 'c' :: front) ++ ['"'] := by
    rw [interruptionText_eq, hfront]
    rfl
  have hline : interruptionLine unprintable fields i x =
      '[' :: ((fields.timeStr i).toList ++ ']' :: ' ' :: (streamInterrupted ++ ' ' :: 'c' :: front))
        ++ ['"'] := by
    rw [interruptionLine, htext]
    simp only [List.append_assoc, List.cons_append]
  have hstart : trimStart (streamInterrupted ++ interruptionText unprintable fields x) =
      streamInterrupted ++ interruptionText unprintable fields x := rfl
  rw [hline, parseLine_interruption (fields.time_closed i) (by decide), ← htext,
    parseStreamInterrupted, hstart, if_pos (List.prefix_append _ _), List.drop_left,
    trim_interruptionText]

end Line

section Read

variable (unprintable : Char → Bool) {fields : InterruptionFields} {i : ℕ} {x : Interruption}

/-- The entry has what the line of an interruption was made of, and nothing else. -/
structure ReadInterruption (x : Interruption) (entry : CappedEntry) : Prop where
  status : entry.status = none
  path : entry.path = some x.endpoint.toList
  userAgent : entry.userAgent = none
  model : entry.model = some x.model.toList
  apiKey : entry.apiKey = none
  error : entry.error = some (truncateError x.error.toList).1
  requestBody : entry.requestBody = none

structure BareInterruption (fields : InterruptionFields) (x : Interruption) : Prop where
  clientIp : Bare fields.clientIp.toList
  endpoint : Bare x.endpoint.toList
  model : Bare x.model.toList
  backend : Bare x.backend.toList

theorem parseKvFields_modelFields (n : ℕ) (hmodel : Bare x.model.toList)
    (hbackend : Bare x.backend.toList) :
    parseKvFields (n + 3) (modelFields unprintable x) =
      [("model".toList, x.model.toList), ("backend".toList, x.backend.toList),
        ("error".toList, x.error.toList)] := by
  have herror : takeQuoted (debugStr unprintable x.error) = some (x.error.toList, []) := by
    refine takeQuoted_debugStr unprintable x.error ?_
    rw [List.append_nil, debugStr, List.cons_append, trimStart_cons (by decide)]
  unfold modelFields
  rw [parseKvFields_bare (by decide) hmodel]
  have hnext : trimStart ("backend".toList ++ '=' :: (x.backend.toList ++
      ' ' :: errorField unprintable x)) = "backend".toList ++ '=' :: (x.backend.toList ++
        ' ' :: errorField unprintable x) := rfl
  have hlast : trimStart (errorField unprintable x) = errorField unprintable x := rfl
  rw [hnext, parseKvFields_bare (by decide) hbackend, hlast]
  unfold errorField
  rw [parseKvFields_quoted (by decide) rfl herror]
  rfl

theorem parseKvFields_interruptionFields (n : ℕ) (hip : Bare fields.clientIp.toList)
    (hendpoint : Bare x.endpoint.toList) :
    parseKvFields (n + 2) (interruptionFields unprintable fields x) =
      ("client".toList, fields.clientIp.toList) :: ("endpoint".toList, x.endpoint.toList) ::
        parseKvFields n (modelFields unprintable x) := by
  have hnext : trimStart ("endpoint".toList ++ '=' :: (x.endpoint.toList ++
      ' ' :: modelFields unprintable x)) = "endpoint".toList ++ '=' :: (x.endpoint.toList ++
        ' ' :: modelFields unprintable x) := rfl
  have hlast : trimStart (modelFields unprintable x) = modelFields unprintable x := rfl
  unfold interruptionFields
  rw [parseKvFields_bare (by decide) hip, hnext, parseKvFields_bare (by decide) hendpoint, hlast]
  rfl

theorem five_le_length (fields : InterruptionFields) (x : Interruption) :
    5 ≤ (interruptionText unprintable fields x).length := by
  have hclient : "client".toList.length = 6 := by decide
  rw [interruptionText_eq]
  unfold interruptionFields
  simp only [List.length_cons, List.length_append]
  omega

theorem oneLine_of_bare {s : String} (h : Bare s.toList) : OneLine s :=
  fun hmem ↦ absurd (h.1 '\n' hmem) (by decide)

theorem readInterruption_of_bare (h : BareInterruption fields x) :
    ∃ entry, entriesOf (interruptionLine unprintable fields i x) = [entry] ∧
      ReadInterruption x entry := by
  have hline := interruptionLine_oneLine unprintable fields i (oneLine_of_bare h.endpoint)
    (oneLine_of_bare h.model) (oneLine_of_bare h.backend)
  obtain ⟨n, hn⟩ := Nat.exists_eq_add_of_le' (five_le_length unprintable fields x)
  refine ⟨_, entriesOf_oneLine hline, ?_⟩
  rw [parseLineCapped, parseLine_interruptionLine, hn,
    parseKvFields_interruptionFields unprintable (n + 3) h.clientIp h.endpoint,
    parseKvFields_modelFields unprintable n h.model h.backend]
  obtain ⟨hstatus, hpath, hagent, hmodel, hkey, hbody⟩ := capError_fields
    { kind := "stream_interrupted", time := some (fields.timeStr i).toList,
      ip := some fields.clientIp.toList, path := some x.endpoint.toList,
      model := some x.model.toList, backend := some x.backend.toList,
      error := some x.error.toList }
  exact
    { status := hstatus
      path := hpath
      userAgent := hagent
      model := hmodel
      apiKey := hkey
      error := capError_error _
      requestBody := hbody }

end Read

section Model

variable (unprintable : Char → Bool) {x : Interruption}

def escapedError (x : Interruption) : Text := x.error.toList.flatMap (escapeDebug unprintable)

theorem modelFields_eq :
    modelFields unprintable x = ("model=".toList ++ (x.model.toList ++ backendGap x)) ++
      '"' :: (escapedError unprintable x ++ ['"']) := by
  unfold modelFields backendGap errorField escapedError debugStr
  simp only [List.append_assoc]
  rfl

theorem backendGap_concat :
    backendGap x = (" backend=".toList ++ (x.backend.toList ++ " erro".toList)) ++ ['r', '='] := by
  unfold backendGap
  simp only [List.append_assoc]
  rfl

theorem clean_backendGap (h : Clean x.backend.toList) : Clean (backendGap x) := by
  unfold backendGap
  rw [clean_append, clean_append]
  exact ⟨by decide, h, by decide⟩

theorem quote_in_model {front key inner rest value : Text} (hbackend : Clean x.backend.toList)
    (htext : modelFields unprintable x = front ++ (key ++ '=' :: '"' :: inner))
    (hkey : trim key = "model".toList) (hreads : Reads inner value rest) :
    ∃ before w, x.model.toList = before ++ '"' :: w ∧
      front ++ (key ++ ['=']) = "model=".toList ++ before ∧
      inner = w ++ (backendGap x ++ '"' :: (escapedError unprintable x ++ ['"'])) := by
  have hplace : (front ++ (key ++ ['='])) ++ '"' :: inner =
      ("model=".toList ++ (x.model.toList ++ backendGap x)) ++
        '"' :: (escapedError unprintable x ++ ['"']) := by
    rw [← modelFields_eq, htext]
    simp only [List.append_assoc, List.singleton_append]
  rcases quote_split hplace with ⟨n, hn, hfront⟩ | ⟨w, hw, rfl⟩
  · exfalso
    cases n with
    | nil =>
      -- the quote opens the error, and `error` is the end of the key
      have hend : (front ++ key) ++ ['='] = ("model=".toList ++ (x.model.toList ++
          (" backend=".toList ++ (x.backend.toList ++ " erro".toList))) ++ ['r']) ++ ['='] := by
        rw [List.append_nil, backendGap_concat] at hfront
        simpa only [List.append_assoc, List.cons_append, List.nil_append] using hfront
      have hlast := congrArg List.getLast? (List.append_inj' hend rfl).1
      cases key using List.reverseRecOn with
      | nil => exact absurd hkey (by decide)
      | append_singleton key c =>
        rw [← List.append_assoc, List.getLast?_concat, List.getLast?_concat] at hlast
        obtain rfl := Option.some.inj hlast
        obtain ⟨start, htrim⟩ := trim_concat (c := 'r') (by decide) key
        have hmodel := congrArg List.getLast? (htrim.symm.trans hkey)
        rw [List.getLast?_concat] at hmodel
        exact absurd hmodel (by decide)
    | cons c n =>
      obtain ⟨rfl, hinner⟩ := List.cons.inj hn
      have hlast := congrArg List.getLast? hfront
      rw [← List.append_assoc, List.getLast?_concat] at hlast
      rcases quote_split hinner.symm with ⟨m, hm, -⟩ | ⟨m, hm, -⟩
      · have hnil : inner = [] := by
          have hlength := congrArg List.length hm
          simp only [List.length_append, List.length_cons, List.length_nil] at hlength
          exact List.length_eq_zero_iff.mp (by omega)
        rw [hnil] at hreads
        cases hreads
      · obtain ⟨a, rfl⟩ := quotesEscaped_escaped unprintable _ _ _ hm
        rw [← List.cons_append, ← List.append_assoc, List.getLast?_concat] at hlast
        exact absurd hlast (by decide)
  · rw [← List.append_assoc] at hw
    rcases quote_split hw.symm with ⟨n, hn, -⟩ | ⟨w', hw', rfl⟩
    · refine absurd ?_ (clean_backendGap hbackend).1
      rw [hn]
      exact List.mem_append_right _ List.mem_cons_self
    · rcases quote_split hw'.symm with ⟨before, hbefore, hfront⟩ | ⟨n, hn, -⟩
      · exact ⟨before, w', hbefore, hfront, List.append_assoc _ _ _⟩
      · have hmem : '"' ∈ "model=".toList := by
          rw [hn]
          exact List.mem_append_right _ List.mem_cons_self
        exact absurd hmem (by decide)

/-- A quoted value that has the quote in front of it, and what it is read from, ends behind the
quote of the error. -/
theorem model_passes {before w rest : Text} (hbackend : Clean x.backend.toList)
    (hreads : Reads (w ++ (backendGap x ++ '"' :: (escapedError unprintable x ++ ['"'])))
      (before ++ '"' :: w) rest) :
    Passed (w ++ backendGap x) (escapedError unprintable x ++ ['"']) (before ++ '"' :: w) rest := by
  have hgap := clean_backendGap hbackend
  obtain ⟨gap, hend⟩ : ∃ gap, backendGap x = gap ++ ['='] :=
    ⟨_, backendGap_concat.trans (List.append_assoc _ ['r'] ['=']).symm⟩
  have hshort : ¬(escapedError unprintable x ++ ['"']).length ≤ rest.length := by
    intro hle
    obtain ⟨read, hread, hmarks⟩ := hreads.marks_le
    have hplace : read ++ '"' :: rest =
        (w ++ backendGap x) ++ '"' :: (escapedError unprintable x ++ ['"']) := by
      rw [← hread, List.append_assoc]
    have hwhole : marks (w ++ backendGap x) = marks w := by
      rw [marks_append, marks_clean hgap, Nat.add_zero]
    have hreadMarks : marks read ≤ marks w := by
      rcases quote_split hplace with ⟨n, hn, rfl⟩ | ⟨n, hn, -⟩
      · have hlength := congrArg List.length hn
        simp only [List.length_append, List.length_cons] at hlength hle
        have hnil : n = [] := List.length_eq_zero_iff.mp (by omega)
        rw [hnil, List.append_nil, hwhole]
      · rw [← hwhole, hn, marks_append]
        exact Nat.le_add_right _ _
    have hquote : marks ('"' :: w) = 1 + marks w := rfl
    rw [marks_append, hquote] at hmarks
    omega
  have hcross : w ++ (backendGap x ++ '"' :: (escapedError unprintable x ++ ['"'])) =
      (w ++ gap) ++ '=' :: '"' :: (escapedError unprintable x ++ ['"']) := by
    rw [hend]
    simp only [List.append_assoc, List.singleton_append]
  rcases hreads.passes hcross (by decide) with hlong | rfl | hpassed
  · exact absurd hlong.le hshort
  · exact absurd (Nat.le_refl _) hshort
  · rw [List.append_assoc, ← hend] at hpassed
    exact hpassed

/-- A value that is read past the quote of the error is not longer than the name of the model
behind its quote, with the error. -/
theorem passed_length {w value rest : Text} (hbackend : Clean x.backend.toList)
    (h : Passed (w ++ backendGap x) (escapedError unprintable x ++ ['"']) value rest) :
    rest = [] ∧ utf8Len value ≤ utf8Len w + utf8Len x.error.toList + 2 := by
  obtain ⟨front, hex, hex', text, y, v, hfront, hback, -, rfl, hy, hreads⟩ := h
  obtain ⟨read, c, left, herror, rfl⟩ := escaped_close unprintable hback
  obtain ⟨rfl, hrest⟩ := reads_escaped unprintable hreads
  have hw : utf8Len front + 1 ≤ utf8Len w := by
    have hgap := (clean_backendGap hbackend).2
    have hback : '\\'.utf8Size = 1 := by decide
    rcases List.append_eq_append_iff.mp hfront with ⟨a, ha, hmem⟩ | ⟨a, ha, hmem⟩
    · refine absurd ?_ hgap
      rw [hmem]
      exact List.mem_append_right _ List.mem_cons_self
    · cases a with
      | nil =>
        refine absurd ?_ hgap
        rw [List.nil_append] at hmem
        rw [← hmem]
        exact List.mem_cons_self
      | cons d a =>
        obtain ⟨rfl, -⟩ := List.cons.inj hmem
        rw [ha, utf8Len_append, utf8Len_cons]
        omega
  have hc : 0 < c.utf8Size := Char.utf8Size_pos c
  refine ⟨hrest, ?_⟩
  rw [herror]
  simp only [utf8Len_append, utf8Len_cons]
  omega

theorem finds_nil {fields : List (Text × Text)} (h : Finds [] fields) : fields = [] := by
  generalize htext : ([] : Text) = text at h
  cases h with
  | stop => rfl
  | field => simp at htext

theorem bare_of_finds {found : List (Text × Text)} {error : Text}
    (hbackend : Clean x.backend.toList) (h : Finds (modelFields unprintable x) found)
    (hmodel : ("model".toList, x.model.toList) ∈ found) (herror : ("error".toList, error) ∈ found)
    (hlength : utf8Len error = utf8Len x.error.toList) : Bare x.model.toList := by
  obtain ⟨before, after, rfl⟩ := List.append_of_mem hmodel
  obtain ⟨front, key, text, rest, htext, hkey, hvalue, hafter, hbefore⟩ := h.split
  rcases hvalue.bare_or_quoted with hbare | ⟨inner, rfl, hreads⟩
  · exact hbare
  exfalso
  obtain ⟨pre, w, hname, hfront, rfl⟩ := quote_in_model unprintable hbackend htext hkey.symm hreads
  dsimp only at hreads
  rw [hname] at hreads
  obtain ⟨rfl, hle⟩ := passed_length unprintable hbackend (model_passes unprintable hbackend hreads)
  rw [finds_nil hafter] at herror
  have hother : ("error".toList, error) ∈ before := by
    rcases List.mem_append.mp herror with hmem | hmem
    · exact hmem
    · have hkeys := (Prod.mk.inj (List.mem_singleton.mp hmem)).1
      exact absurd hkeys (by decide)
  -- the error and the value do not fit into the name
  have hfits := hbefore _ hother
  have htrim := utf8Len_trim_le key
  have hsizes := congrArg utf8Len hfront
  have hmodelKey : utf8Len "model".toList = 5 := by decide
  have hmodelField : utf8Len "model=".toList = 6 := by decide
  have herrorKey : utf8Len "error".toList = 5 := by decide
  have hequals : utf8Len ['='] = 1 := by decide
  have hquote : '"'.utf8Size = 1 := by decide
  dsimp only at hkey hfits
  rw [← hkey] at htrim
  simp only [utf8Len_append, utf8Len_cons] at hle hsizes
  omega

theorem bare_of_readInterruption {fields : InterruptionFields} {i : ℕ} {entry : CappedEntry}
    (hip : Bare fields.clientIp.toList) (hendpoint : Bare x.endpoint.toList)
    (hbackend : Clean x.backend.toList)
    (hentries : entriesOf (interruptionLine unprintable fields i x) = [entry])
    (hback : ReadInterruption x entry) : Bare x.model.toList := by
  rw [entriesOf_oneLine (oneLine_of_entriesOf hentries), parseLineCapped] at hentries
  have hentry := (List.cons.inj hentries).1
  obtain ⟨n, hn⟩ := Nat.exists_eq_add_of_le' (five_le_length unprintable fields x)
  rw [parseLine_interruptionLine, hn,
    parseKvFields_interruptionFields unprintable (n + 3) hip hendpoint] at hentry
  generalize hparsed : (("client".toList, fields.clientIp.toList) ::
    ("endpoint".toList, x.endpoint.toList) :: parseKvFields (n + 3) (modelFields unprintable x))
      = found at hentry
  have hmem : ∀ key value, key ≠ "client".toList → key ≠ "endpoint".toList →
      (key, value) ∈ found → (key, value) ∈ parseKvFields (n + 3) (modelFields unprintable x) := by
    intro key value hclient hend hfound
    rw [← hparsed] at hfound
    rcases List.mem_cons.mp hfound with heq | hfound
    · exact absurd (Prod.mk.inj heq).1 hclient
    rcases List.mem_cons.mp hfound with heq | hfound
    · exact absurd (Prod.mk.inj heq).1 hend
    · exact hfound
  obtain ⟨-, -, -, hmodelEq, -⟩ := capError_fields (found.foldl setField
    { kind := "stream_interrupted", time := some (fields.timeStr i).toList })
  have herrorEq := capError_error (found.foldl setField
    { kind := "stream_interrupted", time := some (fields.timeStr i).toList })
  rw [hentry, hback.model] at hmodelEq
  rw [hentry, hback.error] at herrorEq
  obtain ⟨error, herror, hcap⟩ := Option.map_eq_some_iff.mp herrorEq.symm
  have hmodel := mem_of_foldl_setField (·.model) setField_model rfl hmodelEq.symm
  have herrorMem := mem_of_foldl_setField (·.error) setField_error rfl herror
  exact bare_of_finds unprintable hbackend (finds_parseKvFields (n + 3) _)
    (hmem _ _ (by decide) (by decide) hmodel) (hmem _ _ (by decide) (by decide) herrorMem)
    (utf8Len_of_truncateError hcap)

end Model

section Events

/-- What the gateway writes to the error log: a request that fails, or a stream that breaks. -/
inductive Event
  | request (fields : HttpFields) (resp : Response)
      (failed : (resp.status.isServerError || resp.status.isClientError) = true)
  | interruption (fields : InterruptionFields) (i : ℕ) (x : Interruption)

variable (unprintable : Char → Bool)

def Event.line : Event → Option Text
  | .request fields resp _ => accessEntry unprintable fields.toRequestFields resp
  | .interruption fields i x => some (interruptionLine unprintable fields i x)

def Event.ReadAs : Event → CappedEntry → Prop
  | .request fields resp _, entry => ReadBack fields.toRequestFields resp entry
  | .interruption _ _ x, entry => ReadInterruption x entry

/-- What is written for the event gives one entry, which has what the event had. -/
def Event.ReadsBack (layer : FmtLayer) (event : Event) : Prop :=
  ∃ line, event.line unprintable = some line ∧
    ∃ entry, entriesOf (layer.write line) = [entry] ∧ event.ReadAs entry

/-- What does not come with the request, the address apart, does not look like log text. -/
def Event.Ordinary : Event → Prop
  | .request fields _ _ => PlainAddress fields.clientIp.toList
  | .interruption fields _ x => Bare fields.clientIp.toList ∧ Bare x.endpoint.toList ∧
      Bare x.backend.toList ∧ Clean x.backend.toList

def Event.Clean : Event → Prop
  | .request fields resp _ =>
    PlainAddress fields.clientIp.toList ∧ CleanRequest fields.toRequestFields resp
  | .interruption fields _ x => BareInterruption fields x

variable (layer : FmtLayer)

theorem readsBack_request {fields : HttpFields} {resp : Response}
    (failed : (resp.status.isServerError || resp.status.isClientError) = true) :
    (Event.request fields resp failed).ReadsBack unprintable layer ↔
      ∃ entry, entriesOf (errorLine unprintable fields.toRequestFields resp) = [entry] ∧
        ReadBack fields.toRequestFields resp entry := by
  have hline : (Event.request fields resp failed).line unprintable =
      some (errorLine unprintable fields.toRequestFields resp) := if_pos failed
  simp only [Event.ReadsBack, layer.verbatim]
  constructor
  · rintro ⟨line, heq, hentry⟩
    rw [hline] at heq
    exact Option.some.inj heq ▸ hentry
  · exact fun hentry ↦ ⟨_, hline, hentry⟩

theorem readsBack_interruption {fields : InterruptionFields} {i : ℕ} {x : Interruption} :
    (Event.interruption fields i x).ReadsBack unprintable layer ↔
      ∃ entry, entriesOf (interruptionLine unprintable fields i x) = [entry] ∧
        ReadInterruption x entry := by
  simp only [Event.ReadsBack, layer.verbatim]
  constructor
  · rintro ⟨line, heq, hentry⟩
    exact Option.some.inj heq ▸ hentry
  · exact fun hentry ↦ ⟨_, rfl, hentry⟩

theorem Event.Clean.readsBack {event : Event} (h : event.Clean) :
    event.ReadsBack unprintable layer := by
  cases event with
  | request fields resp failed =>
    exact (readsBack_request unprintable layer failed).mpr (readBack_of_clean unprintable h.1 h.2)
  | interruption fields i x =>
    exact (readsBack_interruption unprintable layer).mpr (readInterruption_of_bare unprintable h)

theorem Event.ReadsBack.clean (hdash : unprintable '-' = false) {event : Event}
    (hordinary : event.Ordinary) (h : event.ReadsBack unprintable layer) : event.Clean := by
  cases event with
  | request fields resp failed =>
    obtain ⟨entry, hentries, hback⟩ := (readsBack_request unprintable layer failed).mp h
    exact ⟨hordinary, clean_of_readBack unprintable hdash hordinary hentries hback⟩
  | interruption fields i x =>
    obtain ⟨hip, hendpoint, hbackend, hclean⟩ := hordinary
    obtain ⟨entry, hentries, hback⟩ := (readsBack_interruption unprintable layer).mp h
    exact
      { clientIp := hip
        endpoint := hendpoint
        model := bare_of_readInterruption unprintable hip hendpoint hclean hentries hback
        backend := hbackend }

/-- The line of an event is read as the event, in one entry, if what is written without escapes is
clean, and only then if the log is not forged. -/
theorem event_readsBack (hdash : unprintable '-' = false) (event : Event) :
    (event.Ordinary → (event.ReadsBack unprintable layer ↔ event.Clean)) ∧
      (event.Clean → event.ReadsBack unprintable layer) := by
  refine ⟨fun hordinary ↦ ⟨fun hback ↦ ?_, fun hclean ↦ ?_⟩, fun hclean ↦ ?_⟩
  · exact hback.clean unprintable layer hdash hordinary
  · exact hclean.readsBack unprintable layer
  · exact hclean.readsBack unprintable layer

def refusedFields (userAgent : String) (h : OneLine userAgent) : HttpFields where
  clientIp := "192.0.2.7"
  timeStr := "01/Jan/2026:00:00:00 +0000"
  method := "POST"
  uri := "/v1/chat/completions"
  version := "HTTP/1.1"
  bodyBytes := "61"
  userAgent := userAgent
  latency := "0.003"
  bearerToken := some "sk-0123456789abcdef"
  logFullToken := false
  oneLine := by
    simp only [List.forall_mem_cons, List.not_mem_nil, false_implies, implies_true, and_true]
    exact ⟨by decide, by decide, by decide, by decide, by decide, by decide, h, by decide⟩
  token_oneLine := by
    intro token htoken
    cases htoken
    decide
  method_plain := by decide
  uri_noSpace := by decide
  version_plain := by decide
  bodyBytes_plain := by decide
  latency_plain := by decide
  time_open := by decide

def refused : Response where
  status := .unprocessableEntity
  body := .events
  log := some
    { model := "gpt=4"
      backend := "-"
      error := some "no \"messages\"\n"
      requestBody := some "\x7b\"model\": \"gpt=4\"\x7d" }

def refusedEvent (userAgent : String) (h : OneLine userAgent) : Event :=
  .request (refusedFields userAgent h) refused rfl

theorem refusedEvent_ordinary (userAgent : String) (h : OneLine userAgent) :
    (refusedEvent userAgent h).Ordinary := by
  have haddress : PlainAddress "192.0.2.7".toList := ⟨by decide, rfl⟩
  exact haddress

theorem event_readsBack_refused :
    (refusedEvent "curl/8.5.0" (by decide)).ReadsBack (fun _ ↦ false) .plain := by
  refine (event_readsBack (fun _ ↦ false) .plain rfl _).2 ⟨refusedEvent_ordinary _ (by decide), ?_⟩
  exact
    { uri := by decide
      userAgent := by decide
      model := by decide
      apiKey := by decide
      model_oneLine := by decide
      requestBody := by decide }

theorem event_not_readsBack :
    ¬(refusedEvent "curl \"8.5.0\"" (by decide)).ReadsBack (fun _ ↦ false) .plain := by
  intro h
  have hclean := h.clean (fun _ ↦ false) .plain rfl (refusedEvent_ordinary _ (by decide))
  exact absurd hclean.2.userAgent (by decide)

end Events

end QueQiao.AccessLog
