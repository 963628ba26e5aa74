import QueQiao.Handlers.ThinkingTransformer
import QueQiao.Lib.TextKinds

namespace QueQiao.ThinkingTransformer

open Lib.Delimiters ThinkingStreamTransformer

def deltaReasoning : Json → List Char
  | .obj obj => ((fieldReasoning obj).map String.toList).getD []
  | _ => []

def contentText (deltas : List Json) : List Char := deltas.flatMap (fieldText "content")

/-- The text that a stream of deltas has for a phase, in the order of its arrival, where the
kinds of the contents' characters are given. -/
def arrived (p : Phase) : List Json → List (Option Phase) → List Char
  | [], _ => []
  | delta :: deltas, ks =>
    let content := fieldText "content" delta
    (if p = .inThink then deltaReasoning delta else []) ++
      pick p content (ks.take content.length) ++ arrived p deltas (ks.drop content.length)

def arrivedText (p : Phase) (deltas : List Json) : List Char :=
  arrived p deltas (kinds thinkDelims .content (contentText deltas))

def phaseField (target : ThinkingFormat) : Phase → String
  | .content => "content"
  | .inThink => targetField target

def FieldTarget (target : ThinkingFormat) : Prop :=
  target = .reasoning ∨ target = .reasoningContent

/-- The transformer holds back no more than the start of the tag it waits for. -/
structure Waiting (t : ThinkingStreamTransformer) : Prop where
  target : FieldTarget t.target
  partial_tag : t.carry <+: thinkDelims.mark t.phase
  carry_lt : t.carry.length < (thinkDelims.mark t.phase).length

theorem waiting_new {target : ThinkingFormat} (h : FieldTarget target) : Waiting (new target) :=
  ⟨h, List.nil_prefix, List.length_pos_iff.mpr (thinkDelims.mark_ne_nil .content)⟩

variable {t : ThinkingStreamTransformer} {delta : Json}

theorem fieldText_obj (key : String) (obj : Json.Fields) :
    fieldText key (.obj obj) =
      (((Json.Fields.get obj key).bind Json.asStr).map String.toList).getD [] :=
  rfl

theorem fieldText_removeReasoning (obj : Json.Fields) :
    fieldText "content" (.obj (removeReasoning obj)) = fieldText "content" (.obj obj) := by
  have hget : Json.Fields.get (removeReasoning obj) "content" = Json.Fields.get obj "content" :=
    (Json.Fields.get_remove_ne (by decide) _).trans (Json.Fields.get_remove_ne (by decide) _)
  rw [fieldText_obj, hget, ← fieldText_obj]

theorem fieldText_eq_nil {key : String} {obj : Json.Fields} (h : nonEmptyField obj key = none) :
    fieldText key (.obj obj) = [] := by
  rw [fieldText_obj]
  cases hget : Json.Fields.get obj key with
  | none => rfl
  | some v =>
    cases v with
    | str s =>
      have hs : s = "" := by simpa [nonEmptyField, hget, Json.asStr] using h
      subst hs
      rfl
    | null | bool | num | arr | obj => rfl

theorem fieldText_targetField_eq_nil {obj : Json.Fields} (target : ThinkingFormat)
    (h : fieldReasoning obj = none) : fieldText (targetField target) (.obj obj) = [] := by
  obtain ⟨hr, hrc⟩ := Option.or_eq_none_iff.mp h
  cases target with
  | reasoning => exact fieldText_eq_nil hr
  | passthrough | thinkTag | reasoningContent => exact fieldText_eq_nil hrc

theorem fieldReasoning_ne_empty {obj : Json.Fields} {r : String}
    (h : fieldReasoning obj = some r) : r ≠ "" := by
  have hfield : ∀ {key}, nonEmptyField obj key = some r → r ≠ "" := fun hkey ↦ by
    simpa using (Option.filter_eq_some_iff.mp hkey).2
  rcases Option.or_eq_some_iff.mp h with hr | ⟨-, hrc⟩
  · exact hfield hr
  · exact hfield hrc

theorem deltaReasoning_eq_nil {obj : Json.Fields} (h : deltaReasoning (.obj obj) = []) :
    fieldReasoning obj = none := by
  cases hr : fieldReasoning obj with
  | none => rfl
  | some r =>
    refine absurd (String.toList_eq_nil_iff.mp ?_) (fieldReasoning_ne_empty hr)
    simpa [deltaReasoning, hr] using h

theorem transformDelta_field (ht : FieldTarget t.target) (h : deltaReasoning delta ≠ []) :
    (t.transformDelta delta).2 = t ∧
      fieldText "content" (t.transformDelta delta).1 = fieldText "content" delta ∧
      fieldText (targetField t.target) (t.transformDelta delta).1 = deltaReasoning delta := by
  cases delta with
  | null | bool | num | str | arr => exact absurd rfl h
  | obj obj =>
    cases hr : fieldReasoning obj with
    | none => exact absurd (by simp [deltaReasoning, hr]) h
    | some r =>
      have hor : (nonEmptyField obj "reasoning").or (nonEmptyField obj "reasoning_content") =
          some r := hr
      have hdelta : t.transformDelta (.obj obj) =
          (.obj (Json.Fields.insert (targetField t.target) (.str r) (removeReasoning obj)), t) := by
        rcases ht with ht | ht <;>
          simp only [transformDelta, transformDeltaFields, ht, hor]
      rw [hdelta]
      refine ⟨rfl, ?_, ?_⟩
      · rw [fieldText_insert_ne (targetField_ne_content _).symm, fieldText_removeReasoning]
      · rw [fieldText_insert_self]
        simp [deltaReasoning, hr]

theorem transformDelta_content (hw : Waiting t) (h : deltaReasoning delta = []) :
    let s := scan thinkDelims t.phase (t.carry ++ fieldText "content" delta)
    (t.transformDelta delta).2 = { t with phase := s.phase, carry := s.carry } ∧
      ∀ p, fieldText (phaseField t.target p) (t.transformDelta delta).1 = s.out p := by
  have hidle : fieldText "content" delta = [] →
      scan thinkDelims t.phase (t.carry ++ fieldText "content" delta) =
        { out := fun _ ↦ [], phase := t.phase, carry := t.carry } := by
    intro hnil
    rw [hnil, List.append_nil]
    exact scan_partial thinkDelims hw.partial_tag hw.carry_lt
  cases delta with
  | null | bool | num | str | arr =>
    rw [hidle rfl]
    exact ⟨rfl, fun p ↦ rfl⟩
  | obj obj =>
    have hnone := deltaReasoning_eq_nil h
    have hor : (nonEmptyField obj "reasoning").or (nonEmptyField obj "reasoning_content") =
        none := hnone
    cases hc : (Json.Fields.get obj "content").bind Json.asStr with
    | none =>
      have hdelta : t.transformDelta (.obj obj) = (.obj obj, t) := by
        rcases hw.target with ht | ht <;>
          simp only [transformDelta, transformDeltaFields, ht, hor, hc]
      have hnil : fieldText "content" (.obj obj) = [] := by
        rw [fieldText_obj, hc]
        rfl
      rw [hidle hnil, hdelta]
      refine ⟨rfl, fun p ↦ ?_⟩
      cases p with
      | content => exact hnil
      | inThink => exact fieldText_targetField_eq_nil _ hnone
    | some content =>
      have htext : fieldText "content" (.obj obj) = content.toList := by
        rw [fieldText_obj, hc]
        rfl
      have hparse : t.parseContentSource content =
          let s := scan thinkDelims t.phase (t.carry ++ content.toList)
          ((String.ofList (s.out .content), String.ofList (s.out .inThink)),
            { t with phase := s.phase, carry := s.carry }) := by
        simp only [parseContentSource, parseLoop_eq, List.nil_append]
      rw [htext]
      set s := scan thinkDelims t.phase (t.carry ++ content.toList)
      have hdelta : t.transformDelta (.obj obj) =
          (.obj (if String.ofList (s.out .inThink) = "" then
              Json.Fields.insert "content" (.str (String.ofList (s.out .content))) obj
            else Json.Fields.insert (targetField t.target) (.str (String.ofList (s.out .inThink)))
              (Json.Fields.insert "content" (.str (String.ofList (s.out .content))) obj)),
            { t with phase := s.phase, carry := s.carry }) := by
        rcases hw.target with ht | ht <;>
          simp only [transformDelta, transformDeltaFields, ht, hor, hc, hparse]
      have hfield : targetField t.target ≠ "content" := targetField_ne_content _
      rw [hdelta]
      refine ⟨rfl, fun p ↦ ?_⟩
      by_cases hempty : String.ofList (s.out .inThink) = ""
      · rw [if_pos hempty]
        cases p with
        | content => rw [phaseField, fieldText_insert_self, String.toList_ofList]
        | inThink =>
          have hout : s.out .inThink = [] := by
            rw [← String.toList_ofList (l := s.out .inThink), hempty]
            rfl
          rw [phaseField, fieldText_insert_ne hfield, hout]
          exact fieldText_targetField_eq_nil _ hnone
      · rw [if_neg hempty]
        cases p with
        | content =>
          rw [phaseField, fieldText_insert_ne hfield.symm, fieldText_insert_self,
            String.toList_ofList]
        | inThink => rw [phaseField, fieldText_insert_self, String.toList_ofList]

theorem Waiting.transformDelta (hw : Waiting t) (delta : Json) :
    Waiting (t.transformDelta delta).2 ∧ (t.transformDelta delta).2.target = t.target := by
  by_cases h : deltaReasoning delta = []
  · rw [(transformDelta_content hw h).1]
    obtain ⟨hpre, hlt⟩ :=
      scan_carry_partial thinkDelims t.phase (t.carry ++ fieldText "content" delta)
    exact ⟨⟨hw.target, hpre, hlt⟩, rfl⟩
  · rw [(transformDelta_field hw.target h).1]
    exact ⟨hw, rfl⟩

def arrivedAfter (p : Phase) (held : List Char) (deltas : List Json)
    (ks : List (Option Phase)) : List Char :=
  pick p held (ks.take held.length) ++ arrived p deltas (ks.drop held.length)

theorem arrivedAfter_append {p : Phase} {done held : List Char} {ks ls : List (Option Phase)}
    (h : done.length = ks.length) (deltas : List Json) :
    arrivedAfter p (done ++ held) deltas (ks ++ ls) =
      pick p done ks ++ arrivedAfter p held deltas ls := by
  rw [arrivedAfter, pick_take_append (by rw [List.length_append]; omega), List.length_append,
    ← List.drop_drop, h, List.take_left, List.drop_left, List.append_assoc, arrivedAfter]

theorem arrivedAfter_cons {p : Phase} {held : List Char} {ks : List (Option Phase)}
    (hlen : held.length ≤ ks.length) (h : deltaReasoning delta = []) (deltas : List Json) :
    arrivedAfter p held (delta :: deltas) ks =
      arrivedAfter p (held ++ fieldText "content" delta) deltas ks := by
  have hnone : (if p = .inThink then deltaReasoning delta else []) = [] := by
    split
    · exact h
    · rfl
  simp only [arrivedAfter, arrived]
  rw [pick_take_append hlen, hnone, List.nil_append, List.append_assoc, List.length_append,
    List.drop_drop]

/-- The reasoning field of a delta comes neither beside a content that the tag parser had to
see, nor before held reasoning text. The contents of the later deltas are given. -/
structure Undisturbed (t : ThinkingStreamTransformer) (delta : Json) (later : List Char) :
    Prop where
  content : fieldText "content" delta ≠ [] → t.phase = .content ∧ t.carry = [] ∧
    ∀ j < (fieldText "content" delta).length,
      ¬openTag <+: (fieldText "content" delta ++ later).drop j
  held : t.phase = .inThink → t.carry = [] ∨ closeTag <+: t.carry ++ later

def NeverDisturbed (t : ThinkingStreamTransformer) : List Json → Prop
  | [] => True
  | delta :: deltas =>
    (deltaReasoning delta ≠ [] → Undisturbed t delta (contentText deltas)) ∧
      NeverDisturbed (t.transformDelta delta).2 deltas

theorem contentText_cons (delta : Json) (deltas : List Json) :
    contentText (delta :: deltas) = fieldText "content" delta ++ contentText deltas :=
  List.flatMap_cons

theorem finalize_text (hw : Waiting t) (p : Phase) :
    t.finalize.1.toList.flatMap (fieldText (phaseField t.target p)) =
      if t.phase = p then t.carry else [] := by
  have hholds : Holds t { out := fun _ ↦ [], phase := t.phase, carry := t.carry } :=
    ⟨hw.target, rfl, rfl⟩
  obtain ⟨hcontent, hreasoning⟩ := hholds.finalize
  cases p with
  | content => exact hcontent
  | inThink => exact hreasoning

theorem arrivedAfter_field (hw : Waiting t) {deltas : List Json}
    (hu : Undisturbed t delta (contentText deltas)) (p : Phase) :
    arrivedAfter p t.carry (delta :: deltas)
        (kinds thinkDelims t.phase (t.carry ++ contentText (delta :: deltas))) =
      (if p = .inThink then deltaReasoning delta else fieldText "content" delta) ++
        arrivedAfter p t.carry deltas
          (kinds thinkDelims t.phase (t.carry ++ contentText deltas)) := by
  rw [contentText_cons]
  by_cases hc : fieldText "content" delta = []
  · have hheld : p = .inThink →
        pick p t.carry ((kinds thinkDelims t.phase (t.carry ++ contentText deltas)).take
          t.carry.length) = [] := by
      rintro rfl
      cases hphase : t.phase with
      | content =>
        have hlt := hw.carry_lt
        rw [hphase] at hlt
        exact pick_held_ne thinkDelims hlt (by decide) _
      | inThink =>
        rcases hu.held hphase with hnil | hclose
        · rw [hnil]
          rfl
        · have hlt := hw.carry_lt
          rw [hphase] at hlt
          exact pick_held_marker thinkDelims hlt hclose
    simp only [arrivedAfter, arrived, hc, List.nil_append, List.length_nil, List.take_zero,
      List.drop_zero]
    cases p with
    | content => rfl
    | inThink =>
      rw [hheld rfl]
      simp [pick]
  · obtain ⟨hphase, hcarry, hfree⟩ := hu.content hc
    have hkinds : kinds thinkDelims .content (fieldText "content" delta ++ contentText deltas) =
        List.replicate (fieldText "content" delta).length (some .content) ++
          kinds thinkDelims .content (contentText deltas) := by
      have h := kinds_eq_drop thinkDelims (p := .content)
        (by rw [List.length_append]; omega) hfree
      rwa [List.drop_left] at h
    simp only [arrivedAfter, arrived, hphase, hcarry, hkinds, pick, List.nil_append,
      List.length_nil, List.drop_zero, List.take_left' List.length_replicate,
      List.drop_left' List.length_replicate, pick_replicate]
    cases p with
    | content => simp
    | inThink => simp

theorem transformDeltas_text (hw : Waiting t) {deltas : List Json}
    (h : NeverDisturbed t deltas) (p : Phase) :
    let r := t.transformDeltas deltas
    (r.1 ++ r.2.finalize.1.toList).flatMap (fieldText (phaseField t.target p)) =
      arrivedAfter p t.carry deltas
        (kinds thinkDelims t.phase (t.carry ++ contentText deltas)) := by
  induction deltas generalizing t with
  | nil =>
    have hshort := kinds_of_none thinkDelims (findSub_eq_none_of_short thinkDelims hw.carry_lt)
    simp only [ThinkingStreamTransformer.transformDeltas, List.nil_append, finalize_text hw,
      contentText, List.flatMap_nil, List.append_nil, arrivedAfter, arrived, hshort,
      List.take_replicate, min_self, pick_replicate, Option.some.injEq]
  | cons delta deltas ih =>
    obtain ⟨hfirst, hrest⟩ := h
    obtain ⟨hnext, htarget⟩ := hw.transformDelta delta
    have hih := ih hnext hrest
    rw [htarget] at hih
    simp only [ThinkingStreamTransformer.transformDeltas, List.cons_append, List.flatMap_cons]
    rw [hih]
    by_cases hr : deltaReasoning delta = []
    · obtain ⟨hstate, htext⟩ := transformDelta_content hw hr
      obtain ⟨done, ks, hsplit, hlen, hpick, hkinds⟩ :=
        kinds_scan thinkDelims t.phase (t.carry ++ fieldText "content" delta)
      have hafter : ∀ held ls, arrivedAfter p (done ++ held) deltas (ks ++ ls) =
          pick p done ks ++ arrivedAfter p held deltas ls :=
        fun _ _ ↦ arrivedAfter_append hlen deltas
      rw [htext, hstate, arrivedAfter_cons (by rw [length_kinds, List.length_append]; omega) hr,
        contentText_cons, ← List.append_assoc, hkinds, ← hpick, ← hafter, ← hsplit]
    · obtain ⟨hstate, hcontent, hreasoning⟩ := transformDelta_field hw.target hr
      rw [hstate, arrivedAfter_field hw (hfirst hr)]
      cases p with
      | content => rw [phaseField, hcontent, if_neg (by decide)]
      | inThink => rw [phaseField, hreasoning, if_pos rfl]

/-- No text of the stream is lost, each text is put out in the order of its arrival, and no tag
is left in the content. -/
structure Kept (target : ThinkingFormat) (deltas : List Json) : Prop where
  reasoning : (streamOutput target deltas).flatMap (fieldText (targetField target)) =
    arrivedText .inThink deltas
  content : (streamOutput target deltas).flatMap (fieldText "content") =
    arrivedText .content deltas
  untagged : ∀ tag ∈ [openTag, closeTag],
    ¬tag <:+: (streamOutput target deltas).flatMap (fieldText "content")

/-- Every run in which no reasoning field disturbs the tag parser keeps its texts. -/
theorem kept_of_neverDisturbed {target : ThinkingFormat} (ht : FieldTarget target)
    {deltas : List Json} (h : NeverDisturbed (new target) deltas)
    (hstray : ∀ tag ∈ [openTag, closeTag], ¬tag <:+: arrivedText .content deltas) :
    Kept target deltas := by
  have htext : ∀ p, (streamOutput target deltas).flatMap (fieldText (phaseField target p)) =
      arrivedText p deltas := transformDeltas_text (waiting_new ht) h
  refine ⟨htext .inThink, htext .content, ?_⟩
  have hcontent : (streamOutput target deltas).flatMap (fieldText "content") =
      arrivedText .content deltas := htext .content
  rwa [hcontent]

def taggedThenField : List Json :=
  [.obj [("content", .str "<think>a</think>b")],
    .obj [("content", .str "c"), ("reasoning", .str "d")]]

theorem kept_of_neverDisturbed_tagged : Kept .reasoning taggedThenField := by
  refine kept_of_neverDisturbed (.inl rfl) ⟨fun h ↦ absurd (by decide +kernel) h, fun _ ↦ ?_, trivial⟩
    (by decide +kernel)
  exact ⟨fun _ ↦ by decide +kernel, fun h ↦ absurd h (by decide +kernel)⟩

/-- A reasoning field in the middle of a think block: the rest of the block goes out as content,
with its closing tag. -/
theorem field_in_block_leaks :
    ¬Kept .reasoning [.obj [("content", .str "<think>a")],
      .obj [("content", .str "b</think>c"), ("reasoning", .str "d")]] :=
  fun h ↦ absurd h.content (by decide +kernel)

end QueQiao.ThinkingTransformer
