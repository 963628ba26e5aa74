import QueQiao.Handlers.ThinkingFields

namespace QueQiao.ThinkingTransformer

open Lib.Delimiters ThinkingStreamTransformer

/-- A piece of a content that holds think blocks: a tag put in around the reasoning, a text of
the reasoning, or a text of the answer. -/
inductive Piece
  | opening
  | closing
  | reasoning (text : List Char)
  | content (text : List Char)

namespace Piece

def render : Piece → List Char
  | opening => openTag
  | closing => closeTag
  | reasoning text | content text => text

def reasoningText : Piece → List Char
  | reasoning text => text
  | _ => []

def contentText : Piece → List Char
  | content text => text
  | _ => []

def isOpening : Piece → Bool
  | opening => true
  | _ => false

def isClosing : Piece → Bool
  | closing => true
  | _ => false

end Piece

open Piece

/-- Whether a content ends inside a block that was inside one at its start or not: `none` if a
tag is opened twice, closed twice, or a text stands on the wrong side of it. -/
def blockState : Bool → List Piece → Option Bool
  | inBlock, [] => some inBlock
  | false, opening :: pieces => blockState true pieces
  | true, closing :: pieces => blockState false pieces
  | true, reasoning _ :: pieces => blockState true pieces
  | false, content _ :: pieces => blockState false pieces
  | _, _ :: _ => none

theorem blockState_append (b : Bool) (pieces later : List Piece) :
    blockState b (pieces ++ later) =
      (blockState b pieces).bind fun b' ↦ blockState b' later := by
  induction pieces generalizing b with
  | nil => rfl
  | cons piece pieces ih => cases b <;> cases piece <;> simp [blockState, ih]

theorem blockState_count {b b' : Bool} {pieces : List Piece} (h : blockState b pieces = some b') :
    b.toNat + pieces.countP isOpening = b'.toNat + pieces.countP isClosing ∧
      (pieces.flatMap reasoningText ≠ [] → 1 ≤ b.toNat + pieces.countP isOpening) ∧
      (pieces.flatMap Piece.contentText ≠ [] → b.toNat ≤ pieces.countP isClosing) := by
  induction pieces generalizing b with
  | nil =>
    obtain rfl := Option.some.inj h
    simp
  | cons piece pieces ih =>
    cases b with
    | false =>
      cases piece with
      | opening =>
        obtain ⟨hcount, hreasoning, hcontent⟩ := ih h
        simp [isOpening, isClosing, List.countP_cons, reasoningText, Piece.contentText] at hcount hcontent ⊢
        omega
      | content text =>
        obtain ⟨hcount, hreasoning, hcontent⟩ := ih h
        simp [isOpening, isClosing, reasoningText, Piece.contentText] at hcount hreasoning ⊢
        exact ⟨hcount, hreasoning⟩
      | closing | reasoning => cases h
    | true =>
      cases piece with
      | closing =>
        obtain ⟨hcount, hreasoning, hcontent⟩ := ih h
        simp [isOpening, isClosing, List.countP_cons, reasoningText, Piece.contentText] at hcount ⊢
        omega
      | reasoning text =>
        obtain ⟨hcount, hreasoning, hcontent⟩ := ih h
        simp [isOpening, isClosing, reasoningText, Piece.contentText] at hcount hcontent ⊢
        exact ⟨hcount, hcontent⟩
      | opening | content => cases h

theorem length_render (pieces : List Piece) :
    (pieces.flatMap render).length =
      7 * pieces.countP isOpening + 8 * pieces.countP isClosing +
        (pieces.flatMap reasoningText).length + (pieces.flatMap Piece.contentText).length := by
  have hopen : openTag.length = 7 := by decide
  have hclose : closeTag.length = 8 := by decide
  induction pieces with
  | nil => rfl
  | cons piece pieces ih =>
    simp only [List.flatMap_cons, List.length_append, List.countP_cons, ih]
    cases piece <;>
      simp only [render, reasoningText, Piece.contentText, isOpening, isClosing, hopen, hclose,
        List.length_nil, if_true, if_false, Bool.false_eq_true] <;>
      omega

/-- The pieces of what a stream puts out for each of its deltas, and of what `finalize` adds. -/
structure Wrapping (t : ThinkingStreamTransformer) (inBlock : Bool) (deltas : List Json)
    (pieces : List (List Piece)) (last : List Piece) : Prop where
  text : (t.transformDeltas deltas).1.map (fieldText "content") =
    pieces.map fun ps ↦ ps.flatMap render
  text_last : (t.transformDeltas deltas).2.finalize.1.toList.flatMap (fieldText "content") =
    last.flatMap render
  reasoning : pieces.map (fun ps ↦ ps.flatMap reasoningText) = deltas.map deltaReasoning
  reasoning_last : last.flatMap reasoningText = []
  content : pieces.map (fun ps ↦ ps.flatMap Piece.contentText) =
    deltas.map (fieldText "content")
  content_last : last.flatMap Piece.contentText = []
  balanced : blockState inBlock (pieces.flatten ++ last) = some false

def NeverResumed (t : ThinkingStreamTransformer) : List Json → Prop
  | [] => True
  | delta :: deltas =>
    (t.thinkClosed = true → deltaReasoning delta = []) ∧
      NeverResumed (t.transformDelta delta).2 deltas

def inBlock (t : ThinkingStreamTransformer) : Bool := t.thinkOpen && !t.thinkClosed

structure TagTarget (t : ThinkingStreamTransformer) : Prop where
  target : t.target = .thinkTag
  open_of_closed : t.thinkClosed = true → t.thinkOpen = true

def deltaPieces (t : ThinkingStreamTransformer) (delta : Json) : List Piece :=
  let r := deltaReasoning delta
  let c := fieldText "content" delta
  (if r ≠ [] ∧ t.thinkOpen = false then [opening] else []) ++
    (if r ≠ [] then [reasoning r] else []) ++
    (if c ≠ [] ∧ (t.thinkOpen = true ∨ r ≠ []) ∧ t.thinkClosed = false then [closing] else []) ++
    if c ≠ [] then [content c] else []

variable {t : ThinkingStreamTransformer} {delta : Json}

theorem deltaPieces_reasoning (t : ThinkingStreamTransformer) (delta : Json) :
    (deltaPieces t delta).flatMap reasoningText = deltaReasoning delta := by
  by_cases hr : deltaReasoning delta = []
  · simp only [deltaPieces, hr, ne_eq, not_true_eq_false, false_and, or_false, if_false]
    split <;> split <;> rfl
  · simp only [deltaPieces, hr, ne_eq, not_false_eq_true, true_and, if_true, or_true]
    split <;> split <;> split <;> simp [reasoningText]

theorem deltaPieces_content (t : ThinkingStreamTransformer) (delta : Json) :
    (deltaPieces t delta).flatMap Piece.contentText = fieldText "content" delta := by
  by_cases hc : fieldText "content" delta = []
  · simp only [deltaPieces, hc, ne_eq, not_true_eq_false, false_and, if_false, List.append_nil]
    split <;> split <;> rfl
  · simp only [deltaPieces, hc, ne_eq, not_false_eq_true, true_and, if_true]
    split <;> split <;> split <;> simp [Piece.contentText]

theorem deltaPieces_render (t : ThinkingStreamTransformer) (delta : Json) :
    (deltaPieces t delta).flatMap render =
      (if deltaReasoning delta ≠ [] ∧ t.thinkOpen = false then openTag else []) ++
        deltaReasoning delta ++
        (if fieldText "content" delta ≠ [] ∧ (t.thinkOpen = true ∨ deltaReasoning delta ≠ []) ∧
          t.thinkClosed = false then closeTag else []) ++
        fieldText "content" delta := by
  have hif : ∀ (c : Prop) [Decidable c] (piece : Piece),
      (if c then [piece] else []).flatMap render = if c then piece.render else [] := by
    intro c _ piece
    split
    · exact List.flatMap_singleton _ _
    · rfl
  have htext : ∀ text : List Char, (if text ≠ [] then text else []) = text := by
    intro text
    split
    · rfl
    · rename_i h
      exact (not_not.mp h).symm
  simp only [deltaPieces, List.flatMap_append, hif]
  simp only [render, htext]

theorem isSome_fieldReasoning (obj : Json.Fields) :
    (fieldReasoning obj).isSome = decide (deltaReasoning (.obj obj) ≠ []) := by
  cases hr : fieldReasoning obj with
  | none => simp [deltaReasoning, hr]
  | some r =>
    have hne : r.toList ≠ [] := fun h ↦
      fieldReasoning_ne_empty hr (String.toList_eq_nil_iff.mp h)
    simp [deltaReasoning, hr, hne]

theorem toList_ite (c : Prop) [Decidable c] (tag : String) :
    (if decide c = true then tag else "").toList = if c then tag.toList else [] := by
  by_cases hc : c <;> simp [hc]

theorem transformDelta_pieces (ht : t.target = .thinkTag) (delta : Json) :
    fieldText "content" (t.transformDelta delta).1 = (deltaPieces t delta).flatMap render ∧
      (t.transformDelta delta).2 =
        { t with
          thinkOpen := t.thinkOpen || decide (deltaReasoning delta ≠ [])
          thinkClosed := t.thinkClosed || decide (fieldText "content" delta ≠ [] ∧
            (t.thinkOpen = true ∨ deltaReasoning delta ≠ []) ∧ t.thinkClosed = false) } := by
  rw [deltaPieces_render]
  cases delta with
  | null | bool | num | str | arr => cases t; simp [transformDelta, deltaReasoning, fieldText, Json.get]
  | obj obj =>
    have hsome := isSome_fieldReasoning obj
    have hreasoning : ((fieldReasoning obj).getD "").toList = deltaReasoning (.obj obj) := by
      cases hr : fieldReasoning obj <;> simp [deltaReasoning, hr]
    have hcontent : (((Json.Fields.get obj "content").bind Json.asStr).getD "").toList =
        fieldText "content" (.obj obj) := by
      rw [fieldText_obj]
      cases (Json.Fields.get obj "content").bind Json.asStr <;> rfl
    have hany : ((Json.Fields.get obj "content").bind Json.asStr).any (· ≠ "") =
        decide (fieldText "content" (.obj obj) ≠ []) := by
      rw [← hcontent]
      cases (Json.Fields.get obj "content").bind Json.asStr <;> simp
    have hclosing : (decide (fieldText "content" (.obj obj) ≠ []) &&
        (t.thinkOpen || decide (deltaReasoning (.obj obj) ≠ [])) && !t.thinkClosed) =
        decide (fieldText "content" (.obj obj) ≠ [] ∧
          (t.thinkOpen = true ∨ deltaReasoning (.obj obj) ≠ []) ∧ t.thinkClosed = false) := by
      simp [Bool.and_assoc]
    have hopening : (decide (deltaReasoning (.obj obj) ≠ []) && !t.thinkOpen) =
        decide (deltaReasoning (.obj obj) ≠ [] ∧ t.thinkOpen = false) := by
      simp
    simp only [transformDelta, transformDeltaFields, ht, hsome, hany, hclosing, hopening]
    refine ⟨?_, trivial⟩
    split
    · rw [fieldText_insert_self]
      simp only [String.toList_append, hreasoning, hcontent, toList_ite]
      rfl
    · rename_i hneither
      obtain ⟨hr, hc⟩ := Bool.or_eq_false_iff.mp (Bool.eq_false_iff.mpr hneither)
      have hr : deltaReasoning (.obj obj) = [] := by simpa using hr
      have hc : fieldText "content" (.obj obj) = [] := by
        rw [fieldText_obj, Option.isSome_eq_false_iff.mp hc |> Option.isNone_iff_eq_none.mp]
        rfl
      rw [fieldText_removeReasoning, hr, hc]
      simp

theorem TagTarget.transformDelta (hw : TagTarget t) (delta : Json) :
    TagTarget (t.transformDelta delta).2 := by
  rw [(transformDelta_pieces hw.target delta).2]
  refine ⟨hw.target, fun h ↦ ?_⟩
  have hopen := hw.open_of_closed
  simp only [Bool.or_eq_true, decide_eq_true_eq] at h ⊢
  rcases h with hclosed | ⟨-, hr, -⟩
  · exact .inl (hopen hclosed)
  · exact hr

theorem blockState_deltaPieces (hw : TagTarget t)
    (h : t.thinkClosed = true → deltaReasoning delta = []) :
    blockState (inBlock t) (deltaPieces t delta) = some (inBlock (t.transformDelta delta).2) := by
  have hopen := hw.open_of_closed
  rw [(transformDelta_pieces hw.target delta).2]
  cases hto : t.thinkOpen <;> cases htc : t.thinkClosed <;>
    by_cases hr : deltaReasoning delta = [] <;>
      by_cases hc : fieldText "content" delta = [] <;>
        simp_all [deltaPieces, inBlock, blockState]

theorem finalize_tags (ht : t.target = .thinkTag) :
    t.finalize.1.toList.flatMap (fieldText "content") =
      if inBlock t then closeTag else [] := by
  rw [finalize, ht]
  change _ = if t.thinkOpen && !t.thinkClosed then closeTag else []
  by_cases h : (t.thinkOpen && !t.thinkClosed) = true
  · simp only [h, if_true, Option.toList_some, List.flatMap_singleton, fieldText_single_self]
    rfl
  · simp only [h, if_false, Option.toList_none, List.flatMap_nil, Bool.false_eq_true]

theorem wrapping_of_neverResumed (hw : TagTarget t) {deltas : List Json}
    (h : NeverResumed t deltas) : ∃ pieces last, Wrapping t (inBlock t) deltas pieces last := by
  induction deltas generalizing t with
  | nil =>
    refine ⟨[], if inBlock t then [closing] else [], rfl, ?_, rfl, ?_, rfl, ?_, ?_⟩
    · refine (finalize_tags hw.target).trans ?_
      split <;> rfl
    · split <;> rfl
    · split <;> rfl
    · cases inBlock t <;> rfl
  | cons delta deltas ih =>
    obtain ⟨hfirst, hrest⟩ := h
    obtain ⟨pieces, last, hp⟩ := ih (hw.transformDelta delta) hrest
    have htext := (transformDelta_pieces hw.target delta).1
    refine ⟨deltaPieces t delta :: pieces, last, ?_, hp.text_last, ?_, hp.reasoning_last, ?_,
      hp.content_last, ?_⟩
    · rw [List.map_cons, ← htext, ← hp.text]
      rfl
    · rw [List.map_cons, List.map_cons, deltaPieces_reasoning, hp.reasoning]
    · rw [List.map_cons, List.map_cons, deltaPieces_content, hp.content]
    · rw [List.flatten_cons, List.append_assoc, blockState_append,
        blockState_deltaPieces hw hfirst]
      exact hp.balanced

theorem tags_of_length {o k b : Bool} {r c : List Char} {n m : ℕ} (hclosed : k = true → o = true)
    (hlen : ((if r ≠ [] ∧ o = false then openTag else []) ++ r ++
      (if c ≠ [] ∧ (o = true ∨ r ≠ []) ∧ k = false then closeTag else []) ++ c).length =
        7 * n + 8 * m + r.length + c.length)
    (hcount : (o && !k).toNat + n = b.toNat + m) (hr : r ≠ [] → 1 ≤ (o && !k).toNat + n)
    (hc : c ≠ [] → (o && !k).toNat ≤ m) :
    (k = true → r = []) ∧
      b = ((o || decide (r ≠ [])) &&
        !(k || decide (c ≠ [] ∧ (o = true ∨ r ≠ []) ∧ k = false))) := by
  have hopen : openTag.length = 7 := by decide
  have hclose : closeTag.length = 8 := by decide
  cases o <;> cases k <;> by_cases hr' : r = [] <;> by_cases hc' : c = [] <;> cases b <;>
    simp [hr', hc', hopen, hclose] at hclosed hlen hcount hr hc ⊢ <;> omega

/-- A wrapping of a stream puts in no more than the transformer does, so nothing of the
reasoning can come after the closing tag. -/
theorem neverResumed_of_wrapping (hw : TagTarget t) {deltas : List Json}
    {pieces : List (List Piece)} {last : List Piece}
    (hp : Wrapping t (inBlock t) deltas pieces last) : NeverResumed t deltas := by
  induction deltas generalizing t pieces with
  | nil => trivial
  | cons delta deltas ih =>
    obtain ⟨htext, htextLast, hreasoning, hreasoningLast, hcontent, hcontentLast, hbalanced⟩ := hp
    cases pieces with
    | nil => cases hreasoning
    | cons ps pieces =>
      simp only [ThinkingStreamTransformer.transformDeltas, List.map_cons, List.cons.injEq]
        at htext hreasoning hcontent
      rw [List.flatten_cons, List.append_assoc, blockState_append] at hbalanced
      cases hstate : blockState (inBlock t) ps with
      | none =>
        rw [hstate] at hbalanced
        cases hbalanced
      | some b =>
        rw [hstate] at hbalanced
        obtain ⟨hcount, hneedOpening, hneedClosing⟩ := blockState_count hstate
        have hlen := length_render ps
        rw [← htext.1, (transformDelta_pieces hw.target delta).1, deltaPieces_render,
          hreasoning.1, hcontent.1] at hlen
        rw [hreasoning.1] at hneedOpening
        rw [hcontent.1] at hneedClosing
        have hstep := tags_of_length hw.open_of_closed hlen hcount hneedOpening hneedClosing
        have hblock : b = inBlock (t.transformDelta delta).2 := by
          rw [(transformDelta_pieces hw.target delta).2]
          exact hstep.2
        subst hblock
        exact ⟨hstep.1, ih (hw.transformDelta delta) ⟨htext.2, htextLast, hreasoning.2,
          hreasoningLast, hcontent.2, hcontentLast, hbalanced⟩⟩

/-- What comes out for each delta is its own reasoning and content, with tags put in so that
all reasoning, and nothing else, is in think blocks. -/
def Wrapped (deltas : List Json) : Prop :=
  ∃ pieces last, Wrapping (new .thinkTag) false deltas pieces last

def InBlocks (deltas : List Json) : Prop :=
  ∃ pieces : List Piece,
    (streamOutput .thinkTag deltas).flatMap (fieldText "content") = pieces.flatMap render ∧
      pieces.flatMap reasoningText = deltas.flatMap deltaReasoning ∧
      pieces.flatMap Piece.contentText = contentText deltas ∧
      blockState false pieces = some false

theorem inBlocks_of_wrapped {deltas : List Json} (h : Wrapped deltas) : InBlocks deltas := by
  obtain ⟨pieces, last, hp⟩ := h
  have hflat : ∀ (f : Piece → List Char), (pieces.flatten ++ last).flatMap f =
      (pieces.map fun ps ↦ ps.flatMap f).flatten ++ last.flatMap f := by
    intro f
    rw [List.flatMap_append, List.flatMap_def, List.map_flatten, List.flatten_flatten,
      List.map_map]
    rfl
  refine ⟨pieces.flatten ++ last, ?_, ?_, ?_, hp.balanced⟩
  · rw [hflat, ← hp.text, ← hp.text_last, ← List.flatMap_def, ← List.flatMap_append]
    rfl
  · rw [hflat, hp.reasoning, hp.reasoning_last, List.append_nil, List.flatMap_def]
  · rw [hflat, hp.content, hp.content_last, List.append_nil, contentText, List.flatMap_def]

/-- The reasoning fields are wrapped in think blocks exactly if none of them has text after the
closing tag. -/
theorem wrapped_iff_neverResumed (deltas : List Json) :
    (Wrapped deltas ↔ NeverResumed (new .thinkTag) deltas) ∧
      (Wrapped deltas → InBlocks deltas) := by
  have hw : TagTarget (new .thinkTag) := ⟨rfl, fun h ↦ absurd h (by decide)⟩
  refine ⟨⟨?_, wrapping_of_neverResumed hw⟩, inBlocks_of_wrapped⟩
  rintro ⟨pieces, last, hp⟩
  exact neverResumed_of_wrapping hw hp

theorem getLast?_of_outside {pieces : List Piece} (h : blockState false pieces = some false) :
    (pieces.flatMap render).getLast? = some '>' ∨
      (pieces.flatMap render).getLast? = (pieces.flatMap Piece.contentText).getLast? := by
  induction pieces using List.reverseRecOn with
  | nil => exact .inr rfl
  | append_singleton pieces piece ih =>
    rw [blockState_append] at h
    simp only [List.flatMap_append, List.flatMap_singleton, List.getLast?_append]
    cases hstate : blockState false pieces with
    | none =>
      rw [hstate] at h
      cases h
    | some b =>
      rw [hstate] at h
      cases b with
      | false =>
        cases piece with
        | content text =>
          cases htext : text.getLast? with
          | none => simpa [render, Piece.contentText, htext] using ih hstate
          | some a => simp [render, Piece.contentText, htext]
        | opening | closing | reasoning => cases h
      | true =>
        cases piece with
        | closing =>
          have hlast : closeTag.getLast? = some '>' := by decide
          simp [render, hlast]
        | opening | reasoning | content => cases h

def resumedReasoning : List Json :=
  [.obj [("reasoning", .str "a")], .obj [("content", .str "b")], .obj [("reasoning", .str "c")]]

theorem resumed_reasoning_bare : ¬InBlocks resumedReasoning := by
  rintro ⟨pieces, htext, -, hcontent, hbalanced⟩
  have hlast := getLast?_of_outside hbalanced
  rw [← htext, hcontent] at hlast
  exact absurd hlast (by decide +kernel)

end QueQiao.ThinkingTransformer
