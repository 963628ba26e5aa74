import QueQiao.Config.Types
import QueQiao.Lib.Delimiters
import QueQiao.Models.Json

namespace QueQiao.ThinkingTransformer

open Lib.Delimiters

def openTag : List Char := "<think>".toList
def closeTag : List Char := "</think>".toList

theorem openTag_ne_nil : openTag ≠ [] := by decide
theorem closeTag_ne_nil : closeTag ≠ [] := by decide

/-- The texts inside the matches of `<think>(.*?)</think>`, and what is left without the
matches. -/
def thinkBlocks (content : List Char) : List (List Char) × List Char :=
  match _h : findSub openTag content with
  | none => ([], content)
  | some i =>
    let inner := content.drop (i + openTag.length)
    match findSub closeTag inner with
    | none => ([], content)
    | some j =>
      let r := thinkBlocks (inner.drop (j + closeTag.length))
      (inner.take j :: r.1, content.take i ++ r.2)
termination_by content.length
decreasing_by
  have hle := (findSub_eq_some_iff.mp _h).2.1.length_le
  have hpos := List.length_pos_iff.mpr openTag_ne_nil
  simp only [List.length_drop] at hle ⊢
  omega

def extractThinkBlocks (content : String) : String × String :=
  let r := thinkBlocks content.toList
  let join (reasoning piece : List Char) : List Char :=
    if piece = [] then reasoning
    else if reasoning = [] then piece
    else reasoning ++ '\n' :: piece
  (String.ofList (r.1.foldl join []), String.ofList r.2)

inductive ContentKind
  | str (s : String)
  | empty
  | other

def classifyContent (msg : Json.Fields) : ContentKind :=
  match msg.get "content" with
  | some (.str s) => .str s
  | some .null | none => .empty
  | some _ => .other

def nonEmptyField (msg : Json.Fields) (key : String) : Option String :=
  ((msg.get key).bind Json.asStr).filter (· ≠ "")

def fieldReasoning (msg : Json.Fields) : Option String :=
  (nonEmptyField msg "reasoning").or (nonEmptyField msg "reasoning_content")

def targetField : ThinkingFormat → String
  | .reasoning => "reasoning"
  | _ => "reasoning_content"

def removeReasoning (msg : Json.Fields) : Json.Fields :=
  Json.Fields.remove "reasoning_content" (Json.Fields.remove "reasoning" msg)

def insertOption (key : String) (value : Option String) (msg : Json.Fields) : Json.Fields :=
  match value with
  | some s => Json.Fields.insert key (.str s) msg
  | none => msg

def transformMessageFields (target : ThinkingFormat) (msg : Json.Fields) : Json.Fields :=
  let fromField := fieldReasoning msg
  let (answer, extracted) : Option String × Option String :=
    match classifyContent msg with
    | .str s =>
      let (r, rem) := extractThinkBlocks s
      (some rem, if r = "" then none else some r)
    | .empty => (some "", none)
    | .other => (none, none)
  let sourceReasoning := (fromField.or extracted).filter (· ≠ "")
  match target with
  | .passthrough => msg
  | .reasoning | .reasoningContent =>
    insertOption "content" answer
      (insertOption (targetField target) sourceReasoning (removeReasoning msg))
  | .thinkTag =>
    match sourceReasoning, answer with
    | some sr, some ans =>
      insertOption "content" (some s!"<think>{sr}</think>{ans}") (removeReasoning msg)
    | some _, none => removeReasoning msg
    | none, some ans => insertOption "content" (some ans) (removeReasoning msg)
    | none, none => removeReasoning msg

def transformMessage (target : ThinkingFormat) : Json → Json
  | .obj msg => .obj (transformMessageFields target msg)
  | v => v

def transformResponseBody (target : ThinkingFormat) (body : Json) : Json :=
  if target = .passthrough then body
  else body.modify "choices" (Json.modifyItems (Json.modify "message" (transformMessage target)))

inductive Phase
  | content
  | inThink
  deriving DecidableEq, Repr

structure ThinkingStreamTransformer where
  target : ThinkingFormat
  phase : Phase
  carry : List Char
  thinkOpen : Bool
  thinkClosed : Bool
  deriving DecidableEq, Repr

namespace ThinkingStreamTransformer

def new (target : ThinkingFormat) : ThinkingStreamTransformer where
  target := target
  phase := .content
  carry := []
  thinkOpen := false
  thinkClosed := false

/-- The longest suffix of `s` that is a proper prefix of `marker`. The markers are ASCII, so
counting characters is counting bytes. -/
def partialMarkerLen (s marker : List Char) : ℕ :=
  let maxk := min s.length (marker.length - 1)
  Nat.findGreatest (fun k ↦ s.drop (s.length - k) = marker.take k) maxk

/-- The loop of `parse_content_source`: the two outputs, and the phase and carry it ends
with. -/
def parseLoop (phase : Phase) (rest contentOut reasoningOut : List Char) :
    (List Char × List Char) × Phase × List Char :=
  match phase with
  | .content =>
    match _h : findSub openTag rest with
    | some i =>
      parseLoop .inThink (rest.drop (i + openTag.length)) (contentOut ++ rest.take i) reasoningOut
    | none =>
      let k := partialMarkerLen rest openTag
      let cut := rest.length - k
      ((contentOut ++ rest.take cut, reasoningOut), .content, rest.drop cut)
  | .inThink =>
    match _h : findSub closeTag rest with
    | some j =>
      parseLoop .content (rest.drop (j + closeTag.length)) contentOut (reasoningOut ++ rest.take j)
    | none =>
      let k := partialMarkerLen rest closeTag
      let cut := rest.length - k
      ((contentOut, reasoningOut ++ rest.take cut), .inThink, rest.drop cut)
termination_by rest.length
decreasing_by
  all_goals
    have hle := (findSub_eq_some_iff.mp _h).2.1.length_le
    have hopen := List.length_pos_iff.mpr openTag_ne_nil
    have hclose := List.length_pos_iff.mpr closeTag_ne_nil
    simp only [List.length_drop] at hle ⊢
    omega

def parseContentSource (fragment : String) (t : ThinkingStreamTransformer) :
    (String × String) × ThinkingStreamTransformer :=
  let combined := t.carry ++ fragment.toList
  let r := parseLoop t.phase combined [] []
  ((String.ofList r.1.1, String.ofList r.1.2), { t with phase := r.2.1, carry := r.2.2 })

def transformDeltaFields (obj : Json.Fields) (t : ThinkingStreamTransformer) :
    Json.Fields × ThinkingStreamTransformer :=
  match t.target with
  | .passthrough => (obj, t)
  | .reasoning | .reasoningContent =>
    let dr := nonEmptyField obj "reasoning"
    let drc := nonEmptyField obj "reasoning_content"
    match dr.or drc with
    | some val =>
      (Json.Fields.insert (targetField t.target) (.str val) (removeReasoning obj), t)
    | none =>
      match (obj.get "content").bind Json.asStr with
      | none => (obj, t)
      | some content =>
        let ((cOut, rOut), t') := t.parseContentSource content
        let obj := Json.Fields.insert "content" (.str cOut) obj
        (if rOut = "" then obj else Json.Fields.insert (targetField t.target) (.str rOut) obj, t')
  | .thinkTag =>
    let dr := fieldReasoning obj
    let dc := (obj.get "content").bind Json.asStr
    let opening := dr.isSome && !t.thinkOpen
    let thinkOpen := t.thinkOpen || dr.isSome
    let closing := dc.any (· ≠ "") && thinkOpen && !t.thinkClosed
    let out := (if opening then "<think>" else "") ++ dr.getD "" ++
      (if closing then "</think>" else "") ++ dc.getD ""
    let obj := removeReasoning obj
    (if dr.isSome || dc.isSome then Json.Fields.insert "content" (.str out) obj else obj,
      { t with thinkOpen := thinkOpen, thinkClosed := t.thinkClosed || closing })

def transformDelta (delta : Json) (t : ThinkingStreamTransformer) :
    Json × ThinkingStreamTransformer :=
  match delta with
  | .obj obj => let r := t.transformDeltaFields obj; (.obj r.1, r.2)
  | v => (v, t)

def finalize (t : ThinkingStreamTransformer) : Option Json × ThinkingStreamTransformer :=
  match t.target with
  | .passthrough => (none, t)
  | .thinkTag =>
    if t.thinkOpen && !t.thinkClosed then
      (some (.obj [("content", .str "</think>")]), { t with thinkClosed := true })
    else (none, t)
  | .reasoning | .reasoningContent =>
    if t.carry = [] then (none, t)
    else
      let leftover := Json.str (String.ofList t.carry)
      match t.phase with
      | .content => (some (.obj [("content", leftover)]), { t with carry := [] })
      | .inThink => (some (.obj [(targetField t.target, leftover)]), { t with carry := [] })

def transformDeltas (t : ThinkingStreamTransformer) :
    List Json → List Json × ThinkingStreamTransformer
  | [] => ([], t)
  | delta :: deltas =>
    let (out, t') := t.transformDelta delta
    let (outs, t'') := t'.transformDeltas deltas
    (out :: outs, t'')

/-- The deltas a client receives for a stream, with the one that `finalize` adds. -/
def streamOutput (target : ThinkingFormat) (deltas : List Json) : List Json :=
  let (outs, t) := (new target).transformDeltas deltas
  outs ++ t.finalize.1.toList

end ThinkingStreamTransformer

open ThinkingStreamTransformer

def thinkDelims : Delims Phase Char where
  mark
    | .content => openTag
    | .inThink => closeTag
  next
    | .content => .inThink
    | .inThink => .content
  mark_ne_nil
    | .content => openTag_ne_nil
    | .inThink => closeTag_ne_nil

theorem partialMarkerLen_eq (s marker : List Char) :
    partialMarkerLen s marker = overlap marker s := by
  rw [partialMarkerLen, overlap]

theorem parseLoop_eq (phase : Phase) (rest contentOut reasoningOut : List Char) :
    parseLoop phase rest contentOut reasoningOut =
      let s := scan thinkDelims phase rest
      ((contentOut ++ s.out .content, reasoningOut ++ s.out .inThink), s.phase, s.carry) := by
  fun_induction parseLoop with
  | case1 rest contentOut reasoningOut i hf ih =>
    rw [ih, scan_of_some thinkDelims (p := .content) hf]
    simp [emit, thinkDelims]
  | case2 rest contentOut reasoningOut hf k cut =>
    rw [scan_of_none thinkDelims (p := .content) hf]
    simp [emit, thinkDelims, cut, k, partialMarkerLen_eq]
  | case3 rest contentOut reasoningOut j hf ih =>
    rw [ih, scan_of_some thinkDelims (p := .inThink) hf]
    simp [emit, thinkDelims]
  | case4 rest contentOut reasoningOut hf k cut =>
    rw [scan_of_none thinkDelims (p := .inThink) hf]
    simp [emit, thinkDelims, cut, k, partialMarkerLen_eq]

def fieldText (key : String) (v : Json) : List Char :=
  (((v.get key).bind Json.asStr).map String.toList).getD []

def contentDelta (fragment : String) : Json := .obj [("content", .str fragment)]

structure Holds (t : ThinkingStreamTransformer) (s : Scan Phase Char) : Prop where
  target : t.target = .reasoning ∨ t.target = .reasoningContent
  phase : t.phase = s.phase
  carry : t.carry = s.carry

variable {t : ThinkingStreamTransformer} {s : Scan Phase Char}

theorem fieldText_insert_self (key text : String) (fields : Json.Fields) :
    fieldText key (.obj (Json.Fields.insert key (.str text) fields)) = text.toList := by
  have h : (Json.obj (Json.Fields.insert key (.str text) fields)).get key = some (.str text) :=
    Json.Fields.get_insert_self key _ fields
  simp [fieldText, h, Json.asStr]

theorem fieldText_insert_ne {k key : String} (h : k ≠ key) (v : Json) (fields : Json.Fields) :
    fieldText k (.obj (Json.Fields.insert key v fields)) = fieldText k (.obj fields) := by
  have hget : (Json.obj (Json.Fields.insert key v fields)).get k = (Json.obj fields).get k :=
    Json.Fields.get_insert_ne h v fields
  rw [fieldText, hget, fieldText]

theorem fieldText_single_self (key text : String) :
    fieldText key (.obj [(key, .str text)]) = text.toList :=
  fieldText_insert_self key text []

theorem fieldText_single_ne {k key : String} (h : k ≠ key) (v : Json) :
    fieldText k (.obj [(key, v)]) = [] :=
  fieldText_insert_ne h v []

theorem targetField_ne_content (target : ThinkingFormat) : targetField target ≠ "content" := by
  cases target <;> decide

theorem Holds.parseContentSource (h : Holds t s) (fragment : String) :
    let r := t.parseContentSource fragment
    let s' := s.feed thinkDelims fragment.toList
    s.out .content ++ r.1.1.toList = s'.out .content ∧
      s.out .inThink ++ r.1.2.toList = s'.out .inThink ∧
      r.2.target = t.target ∧ Holds r.2 s' := by
  have hparse := parseLoop_eq s.phase (s.carry ++ fragment.toList) [] []
  simp only [List.nil_append] at hparse
  simp only [ThinkingStreamTransformer.parseContentSource, h.phase, h.carry, hparse, Scan.feed,
    String.toList_ofList, true_and]
  exact ⟨h.target, rfl, rfl⟩

theorem fieldText_transformDelta (h : t.target = .reasoning ∨ t.target = .reasoningContent)
    (fragment : String) :
    fieldText "content" (t.transformDelta (contentDelta fragment)).1 =
        (t.parseContentSource fragment).1.1.toList ∧
      fieldText (targetField t.target) (t.transformDelta (contentDelta fragment)).1 =
        (t.parseContentSource fragment).1.2.toList ∧
      (t.transformDelta (contentDelta fragment)).2 = (t.parseContentSource fragment).2 := by
  have hfield : targetField t.target ≠ "content" := targetField_ne_content _
  have hdelta : t.transformDeltaFields [("content", .str fragment)] =
      let r := t.parseContentSource fragment
      let obj := Json.Fields.insert "content" (.str r.1.1) [("content", .str fragment)]
      (if r.1.2 = "" then obj else Json.Fields.insert (targetField t.target) (.str r.1.2) obj,
        r.2) := by
    rcases h with h | h <;>
      simp [transformDeltaFields, h, nonEmptyField, Json.Fields.get, Json.asStr, List.lookup_cons]
  simp only [transformDelta, contentDelta, hdelta]
  by_cases hempty : (t.parseContentSource fragment).1.2 = ""
  · simp only [hempty, ↓reduceIte]
    refine ⟨fieldText_insert_self _ _ _, ?_, trivial⟩
    rw [fieldText_insert_ne hfield, fieldText_single_ne hfield]
    rfl
  · simp only [hempty, ↓reduceIte]
    refine ⟨?_, fieldText_insert_self _ _ _, trivial⟩
    rw [fieldText_insert_ne hfield.symm, fieldText_insert_self]

theorem Holds.transformDeltas (h : Holds t s) (fragments : List String) :
    let r := t.transformDeltas (fragments.map contentDelta)
    let s' := (fragments.map String.toList).foldl (Scan.feed thinkDelims) s
    s.out .content ++ r.1.flatMap (fieldText "content") = s'.out .content ∧
      s.out .inThink ++ r.1.flatMap (fieldText (targetField t.target)) = s'.out .inThink ∧
      r.2.target = t.target ∧ Holds r.2 s' := by
  induction fragments generalizing t s with
  | nil => simpa [ThinkingStreamTransformer.transformDeltas] using h
  | cons fragment fragments ih =>
    obtain ⟨hcontent, hreasoning, hstate⟩ := fieldText_transformDelta h.target fragment
    obtain ⟨hc, hr, ht, hnext⟩ := h.parseContentSource fragment
    obtain ⟨hc', hr', ht', hlast⟩ := ih hnext
    simp only [List.map_cons, List.foldl_cons, ThinkingStreamTransformer.transformDeltas,
      List.flatMap_cons, hcontent, hreasoning, hstate, ← List.append_assoc, hc, hr]
    exact ⟨hc', ht ▸ hr', ht'.trans ht, hlast⟩

theorem Holds.finalize (h : Holds t s) :
    t.finalize.1.toList.flatMap (fieldText "content") =
        (if s.phase = .content then s.carry else []) ∧
      t.finalize.1.toList.flatMap (fieldText (targetField t.target)) =
        (if s.phase = .inThink then s.carry else []) := by
  obtain ⟨htarget, hphase, hcarry⟩ := h
  rw [← hphase, ← hcarry]
  by_cases hempty : t.carry = []
  · have hout : t.finalize.1 = none := by
      rcases htarget with htarget | htarget <;>
        simp [ThinkingStreamTransformer.finalize, htarget, hempty]
    simp [hout, hempty]
  · cases hp : t.phase with
    | content =>
      have hout : t.finalize.1 = some (.obj [("content", .str (String.ofList t.carry))]) := by
        rcases htarget with htarget | htarget <;>
          simp only [ThinkingStreamTransformer.finalize, htarget, hempty, hp, if_false]
      rw [hout, Option.toList_some, List.flatMap_singleton, List.flatMap_singleton,
        fieldText_single_self, fieldText_single_ne (targetField_ne_content _),
        String.toList_ofList]
      exact ⟨rfl, rfl⟩
    | inThink =>
      have hout : t.finalize.1 =
          some (.obj [(targetField t.target, .str (String.ofList t.carry))]) := by
        rcases htarget with htarget | htarget <;>
          simp only [ThinkingStreamTransformer.finalize, htarget, hempty, hp, if_false]
      rw [hout, Option.toList_some, List.flatMap_singleton, List.flatMap_singleton,
        fieldText_single_self, fieldText_single_ne (targetField_ne_content _).symm,
        String.toList_ofList]
      exact ⟨rfl, rfl⟩

theorem streamOutput_text {target : ThinkingFormat}
    (h : target = .reasoning ∨ target = .reasoningContent) (fragments : List String) :
    let out := streamOutput target (fragments.map contentDelta)
    let s := scan thinkDelims .content (fragments.map String.toList).flatten
    out.flatMap (fieldText "content") =
        s.out .content ++ (if s.phase = .content then s.carry else []) ∧
      out.flatMap (fieldText (targetField target)) =
        s.out .inThink ++ (if s.phase = .inThink then s.carry else []) := by
  have hstart : Holds (new target) (scan thinkDelims .content []) := by
    rw [scan_nil]
    exact ⟨h, rfl, rfl⟩
  obtain ⟨hcontent, hreasoning, htarget, hend⟩ := hstart.transformDeltas fragments
  rw [foldl_feed, List.nil_append] at hcontent hreasoning hend
  obtain ⟨hfc, hfr⟩ := hend.finalize
  simp only [scan_nil, List.nil_append] at hcontent hreasoning
  rw [htarget] at hfr
  simp only [streamOutput, List.flatMap_append]
  exact ⟨by rw [hcontent, hfc], by rw [← hreasoning, ← hfr]; rfl⟩

theorem toList_join (fragments : List String) :
    (String.join fragments).toList = (fragments.map String.toList).flatten := by
  have hfold : ∀ s : String, (fragments.foldl (· ++ ·) s).toList =
      s.toList ++ (fragments.map String.toList).flatten := by
    induction fragments with
    | nil => simp
    | cons f fragments ih =>
      intro s
      rw [List.foldl_cons, ih, String.toList_append]
      simp
  simpa [String.join] using hfold ""

/-- However a content is cut into fragments, the stream puts out the same content and the
same reasoning as for one fragment. -/
theorem stream_fragments {target : ThinkingFormat}
    (h : target = .reasoning ∨ target = .reasoningContent) (fragments : List String) :
    let split := streamOutput target (fragments.map contentDelta)
    let whole := streamOutput target [contentDelta (String.join fragments)]
    split.flatMap (fieldText "content") = whole.flatMap (fieldText "content") ∧
      split.flatMap (fieldText (targetField target)) =
        whole.flatMap (fieldText (targetField target)) := by
  obtain ⟨hcontent, hreasoning⟩ := streamOutput_text h fragments
  obtain ⟨hcontent', hreasoning'⟩ := streamOutput_text h [String.join fragments]
  simp only [List.map_cons, List.map_nil, List.flatten_cons, List.flatten_nil, List.append_nil,
    toList_join] at hcontent' hreasoning'
  exact ⟨hcontent.trans hcontent'.symm, hreasoning.trans hreasoning'.symm⟩

def splitMarkers : List String := ["<thi", "nk>reason", "ing</thi", "nk>ans", "wer"]

theorem stream_fragments_split_markers :
    let split := streamOutput .reasoning (splitMarkers.map contentDelta)
    let whole := streamOutput .reasoning [contentDelta (String.join splitMarkers)]
    split.flatMap (fieldText "content") = whole.flatMap (fieldText "content") ∧
      split.flatMap (fieldText "reasoning") = whole.flatMap (fieldText "reasoning") :=
  stream_fragments (.inl rfl) splitMarkers

example : (streamOutput .reasoning (splitMarkers.map contentDelta)).flatMap (fieldText "content") =
    "answer".toList := by
  decide +kernel

end QueQiao.ThinkingTransformer
