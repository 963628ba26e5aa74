import QueQiao.Handlers.ThinkingTransformer

namespace QueQiao.ThinkingTransformer

open Lib.Delimiters ThinkingStreamTransformer

/-- Every `<think>` at which a block may start is closed by a later `</think>`. -/
def everyTagClosed (content : List Char) : Bool :=
  match _h : findSub openTag content with
  | none => true
  | some i =>
    let inner := content.drop (i + openTag.length)
    match findSub closeTag inner with
    | none => false
    | some j => everyTagClosed (inner.drop (j + closeTag.length))
termination_by content.length
decreasing_by
  have hle := (findSub_eq_some_iff.mp _h).2.1.length_le
  have hpos := List.length_pos_iff.mpr openTag_ne_nil
  simp only [List.length_drop] at hle ⊢
  omega

def joinPiece (reasoning piece : List Char) : List Char :=
  if piece = [] then reasoning
  else if reasoning = [] then piece
  else reasoning ++ '\n' :: piece

theorem toList_extractThinkBlocks (content : String) :
    (extractThinkBlocks content).1.toList =
        (thinkBlocks content.toList).1.foldl joinPiece [] ∧
      (extractThinkBlocks content).2.toList = (thinkBlocks content.toList).2 :=
  ⟨String.toList_ofList, String.toList_ofList⟩

theorem length_foldl_joinPiece {reasoning : List Char} (h : reasoning ≠ [])
    (pieces : List (List Char)) :
    (pieces.foldl joinPiece reasoning).length =
      reasoning.length + pieces.flatten.length + pieces.countP (· ≠ []) := by
  induction pieces generalizing reasoning with
  | nil => simp
  | cons piece pieces ih =>
    by_cases hp : piece = []
    · simpa [joinPiece, hp] using ih h
    · have hnext : joinPiece reasoning piece = reasoning ++ '\n' :: piece := by
        simp [joinPiece, hp, h]
      rw [List.foldl_cons, hnext, ih (by simp), List.countP_cons_of_pos (by simpa using hp)]
      simp only [List.length_append, List.length_cons, List.flatten_cons]
      omega

theorem foldl_joinPiece_of_empty {pieces : List (List Char)} (h : ∀ p ∈ pieces, p = [])
    (reasoning : List Char) : pieces.foldl joinPiece reasoning = reasoning := by
  induction pieces with
  | nil => rfl
  | cons piece pieces ih =>
    rw [List.foldl_cons, h piece List.mem_cons_self]
    exact ih fun p hp ↦ h p (List.mem_cons_of_mem _ hp)

theorem foldl_joinPiece_eq_flatten_iff (pieces : List (List Char)) :
    pieces.foldl joinPiece [] = pieces.flatten ↔ pieces.countP (· ≠ []) ≤ 1 := by
  induction pieces with
  | nil => simp
  | cons piece pieces ih =>
    by_cases hp : piece = []
    · simpa [joinPiece, hp] using ih
    · rw [List.foldl_cons, joinPiece, if_neg hp, if_pos rfl, List.flatten_cons,
        List.countP_cons_of_pos (by simpa using hp)]
      constructor
      · intro heq
        have hlen := congrArg List.length heq
        rw [length_foldl_joinPiece hp, List.length_append] at hlen
        omega
      · intro hcount
        have hempty : ∀ p ∈ pieces, p = [] := by
          have hzero : pieces.countP (· ≠ []) = 0 := by omega
          simpa [List.countP_eq_zero] using hzero
        rw [foldl_joinPiece_of_empty hempty, List.flatten_eq_nil_iff.mpr hempty, List.append_nil]

/-- What the stream has put out in a phase once its carry is flushed. -/
def flushed (s : Scan Phase Char) (p : Phase) : List Char :=
  s.out p ++ if s.phase = p then s.carry else []

theorem flushed_of_none {content : List Char} {p : Phase}
    (h : findSub (thinkDelims.mark p) content = none) (q : Phase) :
    flushed (scan thinkDelims p content) q = if q = p then content else [] := by
  rw [scan_of_none _ h]
  by_cases hq : q = p
  · simp [flushed, emit, hq]
  · simp [flushed, emit, hq, Ne.symm hq]

theorem flushed_of_some {content : List Char} {p : Phase} {i : ℕ}
    (h : findSub (thinkDelims.mark p) content = some i) (q : Phase) :
    flushed (scan thinkDelims p content) q =
      (if q = p then content.take i else []) ++
        flushed (scan thinkDelims (thinkDelims.next p)
          (content.drop (i + (thinkDelims.mark p).length))) q := by
  rw [scan_of_some _ h]
  by_cases hq : q = p <;> simp [flushed, emit, hq]

theorem everyTagClosed_of_some {content : List Char} {i : ℕ}
    (h : findSub openTag content = some i) :
    everyTagClosed content =
      match findSub closeTag (content.drop (i + openTag.length)) with
      | none => false
      | some j =>
        everyTagClosed ((content.drop (i + openTag.length)).drop (j + closeTag.length)) := by
  rw [everyTagClosed]
  split <;> simp_all

/-- With every tag closed the stream finds the blocks that the regular expression finds, and
with an open one the stream leaves its text out of the content. -/
theorem flushed_thinkBlocks (content : List Char) :
    let s := scan thinkDelims .content content
    if everyTagClosed content then
      flushed s .content = (thinkBlocks content).2 ∧
        flushed s .inThink = (thinkBlocks content).1.flatten
    else (flushed s .content).length < (thinkBlocks content).2.length := by
  fun_induction thinkBlocks content with
  | case1 content hopen =>
    have hclosed : everyTagClosed content = true := by
      rw [everyTagClosed]
      split <;> simp_all
    rw [if_pos hclosed, flushed_of_none (p := .content) hopen,
      flushed_of_none (p := .content) hopen]
    exact ⟨rfl, rfl⟩
  | case2 content i hopen inner hclose =>
    have hopened : everyTagClosed content = false := by
      rw [everyTagClosed_of_some hopen, hclose]
    have hlen := (findSub_eq_some_iff.mp hopen).2.1.length_le
    have hpos := List.length_pos_iff.mpr openTag_ne_nil
    rw [List.length_drop] at hlen
    have hinner : flushed (scan thinkDelims (thinkDelims.next .content) inner) .content = [] :=
      flushed_of_none (p := .inThink) hclose .content
    have hflushed : flushed (scan thinkDelims .content content) .content = content.take i := by
      rw [flushed_of_some (p := .content) hopen, if_pos rfl]
      exact (congrArg _ hinner).trans (List.append_nil _)
    rw [if_neg (by simp [hopened]), hflushed, List.length_take]
    change min i content.length < content.length
    omega
  | case3 content i hopen inner j hclose r ih =>
    have hrest : everyTagClosed content =
        everyTagClosed (inner.drop (j + closeTag.length)) := by
      rw [everyTagClosed_of_some hopen, hclose]
    have hflushed : ∀ q, flushed (scan thinkDelims .content content) q =
        (if q = .content then content.take i else []) ++
          ((if q = .inThink then inner.take j else []) ++
            flushed (scan thinkDelims .content (inner.drop (j + closeTag.length))) q) := by
      intro q
      rw [flushed_of_some (p := .content) hopen]
      exact congrArg _ (flushed_of_some (p := .inThink) hclose q)
    simp only [hrest, hflushed, reduceCtorEq, ↓reduceIte, List.nil_append]
    split at ih
    · rename_i hclosed
      rw [if_pos hclosed, ih.1, ih.2, List.flatten_cons]
      exact ⟨rfl, rfl⟩
    · rename_i hopened
      rw [if_neg hopened, List.length_append, List.length_append]
      exact Nat.add_lt_add_left ih _

variable {target : ThinkingFormat} {msg : Json.Fields} {s : String}

theorem get_removeReasoning (h : target = .reasoning ∨ target = .reasoningContent) :
    (removeReasoning msg).get (targetField target) = none := by
  rcases h with rfl | rfl
  · exact (Json.Fields.get_remove_ne (by decide) _).trans (Json.Fields.get_remove_self _ _)
  · exact Json.Fields.get_remove_self _ _

theorem fieldText_transformMessage (h : target = .reasoning ∨ target = .reasoningContent)
    (hcontent : msg.get "content" = some (.str s)) (hnone : fieldReasoning msg = none) :
    let message := transformMessage target (.obj msg)
    fieldText "content" message = (thinkBlocks s.toList).2 ∧
      fieldText (targetField target) message = (thinkBlocks s.toList).1.foldl joinPiece [] := by
  obtain ⟨hr, hrem⟩ := toList_extractThinkBlocks s
  have hfield : targetField target ≠ "content" := targetField_ne_content _
  have hmessage : transformMessage target (.obj msg) =
      .obj (Json.Fields.insert "content" (.str (extractThinkBlocks s).2)
        (insertOption (targetField target)
          (if (extractThinkBlocks s).1 = "" then none else some (extractThinkBlocks s).1)
          (removeReasoning msg))) := by
    have hfilter : ((if (extractThinkBlocks s).1 = "" then none
        else some (extractThinkBlocks s).1) : Option String).filter (· ≠ "") =
        if (extractThinkBlocks s).1 = "" then none else some (extractThinkBlocks s).1 := by
      split <;> simp_all
    rcases h with rfl | rfl <;>
      simp only [transformMessage, transformMessageFields, classifyContent, hcontent, hnone,
        Option.none_or, hfilter, insertOption]
  simp only [hmessage]
  refine ⟨by rw [fieldText_insert_self, hrem], ?_⟩
  rw [fieldText_insert_ne hfield]
  by_cases hempty : (extractThinkBlocks s).1 = ""
  · rw [if_pos hempty, ← hr, hempty, insertOption, fieldText, Json.get, ← Json.Fields.get,
      get_removeReasoning h]
    rfl
  · rw [if_neg hempty, insertOption, fieldText_insert_self, hr]

/-- A message and the stream of its content come out alike exactly if every think tag is closed
and at most one block holds text. -/
theorem stream_eq_message_iff (h : target = .reasoning ∨ target = .reasoningContent)
    (hcontent : msg.get "content" = some (.str s)) (hnone : fieldReasoning msg = none) :
    let streamed := streamOutput target [contentDelta s]
    let message := transformMessage target (.obj msg)
    (streamed.flatMap (fieldText "content") = fieldText "content" message ∧
        streamed.flatMap (fieldText (targetField target)) =
          fieldText (targetField target) message) ↔
      everyTagClosed s.toList = true ∧ (thinkBlocks s.toList).1.countP (· ≠ []) ≤ 1 := by
  obtain ⟨hmc, hmr⟩ := fieldText_transformMessage h hcontent hnone
  obtain ⟨hsc, hsr⟩ := streamOutput_text h [s]
  simp only [List.map_cons, List.map_nil, List.flatten_cons, List.flatten_nil,
    List.append_nil] at hsc hsr
  have hblocks := flushed_thinkBlocks s.toList
  simp only [flushed] at hblocks
  simp only [hmc, hmr, hsc, hsr]
  split at hblocks
  · rename_i hclosed
    rw [hblocks.1, hblocks.2, eq_comm (a := List.flatten _), foldl_joinPiece_eq_flatten_iff]
    simp [hclosed]
  · rename_i hopened
    constructor
    · rintro ⟨hc, _⟩
      exact absurd (congrArg List.length hc) hblocks.ne
    · rintro ⟨hclosed, _⟩
      exact absurd hclosed hopened

theorem stream_eq_message_iff_answer :
    let streamed := streamOutput .reasoning [contentDelta "<think>a</think>b"]
    let message := transformMessage .reasoning (.obj [("content", .str "<think>a</think>b")])
    (streamed.flatMap (fieldText "content") = fieldText "content" message ∧
        streamed.flatMap (fieldText "reasoning") = fieldText "reasoning" message) ↔
      everyTagClosed "<think>a</think>b".toList = true ∧
        (thinkBlocks "<think>a</think>b".toList).1.countP (· ≠ []) ≤ 1 :=
  stream_eq_message_iff (.inl rfl) rfl rfl

theorem two_blocks_differ :
    let content := "<think>a</think><think>b</think>"
    (streamOutput .reasoning [contentDelta content]).flatMap (fieldText "reasoning") ≠
      fieldText "reasoning" (transformMessage .reasoning (.obj [("content", .str content)])) := by
  decide +kernel

end QueQiao.ThinkingTransformer
