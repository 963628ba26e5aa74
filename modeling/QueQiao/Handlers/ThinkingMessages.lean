import QueQiao.Handlers.ThinkingAgreement
import QueQiao.Handlers.ThinkingFields

namespace QueQiao.ThinkingTransformer

open Lib.Delimiters

/-- A content without a complete `<think>...</think>` block. -/
def NoBlock (content : List Char) : Prop :=
  ∀ a b c, content ≠ a ++ (openTag ++ (b ++ (closeTag ++ c)))

theorem thinkBlocks_of_noBlock {content : List Char} (h : NoBlock content) :
    thinkBlocks content = ([], content) := by
  fun_cases thinkBlocks content with
  | case1 => rfl
  | case2 => rfl
  | case3 i hopen inner j hclose r =>
    have hopening := List.prefix_iff_eq_append.mp (findSub_eq_some_iff.mp hopen).2.1
    have hclosing := List.prefix_iff_eq_append.mp (findSub_eq_some_iff.mp hclose).2.1
    rw [List.drop_drop] at hopening hclosing
    refine absurd ?_ (h (content.take i) (inner.take j) (inner.drop (j + closeTag.length)))
    rw [hclosing, List.take_append_drop, hopening, List.take_append_drop]

theorem length_thinkBlocks_le (content : List Char) :
    (thinkBlocks content).2.length ≤ content.length := by
  fun_induction thinkBlocks content with
  | case1 => exact le_rfl
  | case2 => exact le_rfl
  | case3 content i hopen inner j hclose r ih =>
    have hlen := (findSub_eq_some_iff.mp hopen).2.1.length_le
    have hinner : inner.length = content.length - (i + openTag.length) := List.length_drop
    have htag := List.length_pos_iff.mpr openTag_ne_nil
    have hrest : r.2.length ≤ inner.length - (j + closeTag.length) :=
      ih.trans_eq List.length_drop
    rw [List.length_drop] at hlen
    rw [List.length_append, List.length_take]
    omega

theorem noBlock_of_thinkBlocks {content : List Char} (h : (thinkBlocks content).2 = content) :
    NoBlock content := by
  rintro a b c rfl
  obtain ⟨i, hi, hopen⟩ := findSub_le openTag a (b ++ (closeTag ++ c))
  have hinner : (a ++ (openTag ++ (b ++ (closeTag ++ c)))).drop (i + openTag.length) =
      (a ++ (openTag ++ b)).drop (i + openTag.length) ++ (closeTag ++ c) := by
    have hassoc : a ++ (openTag ++ (b ++ (closeTag ++ c))) =
        (a ++ (openTag ++ b)) ++ (closeTag ++ c) := by simp only [List.append_assoc]
    rw [hassoc, List.drop_append_of_le_length]
    simp only [List.length_append]
    omega
  obtain ⟨j, -, hclose⟩ := findSub_le closeTag ((a ++ (openTag ++ b)).drop (i + openTag.length)) c
  rw [← hinner] at hclose
  have hshort := congrArg List.length h
  have hblocks : (thinkBlocks (a ++ (openTag ++ (b ++ (closeTag ++ c))))).2 =
      (a ++ (openTag ++ (b ++ (closeTag ++ c)))).take i ++
        (thinkBlocks (((a ++ (openTag ++ (b ++ (closeTag ++ c)))).drop
          (i + openTag.length)).drop (j + closeTag.length))).2 := by
    rw [thinkBlocks]
    split
    · rename_i hnone
      simp [hopen] at hnone
    · rename_i i' hsome
      obtain rfl := Option.some.inj (hopen.symm.trans hsome)
      simp only [hclose]
  have hle := length_thinkBlocks_le (((a ++ (openTag ++ (b ++ (closeTag ++ c)))).drop
    (i + openTag.length)).drop (j + closeTag.length))
  have htag := List.length_pos_iff.mpr openTag_ne_nil
  rw [hblocks] at hshort
  simp only [List.length_append, List.length_take, List.length_drop] at hshort hle
  omega

theorem thinkBlocks_wrapped {reasoning : List Char} (h : ¬closeTag <:+: reasoning)
    (answer : List Char) :
    thinkBlocks (openTag ++ (reasoning ++ (closeTag ++ answer))) =
      (reasoning :: (thinkBlocks answer).1, (thinkBlocks answer).2) := by
  have hopen : findSub openTag (openTag ++ (reasoning ++ (closeTag ++ answer))) = some 0 :=
    findSub_eq_some_iff.mpr ⟨Nat.zero_le _, List.prefix_append _ _,
      fun j hj ↦ absurd hj (Nat.not_lt_zero j)⟩
  have hinner : (openTag ++ (reasoning ++ (closeTag ++ answer))).drop (0 + openTag.length) =
      reasoning ++ (closeTag ++ answer) := by
    rw [Nat.zero_add, List.drop_left]
  have hclose : findSub closeTag (reasoning ++ (closeTag ++ answer)) = some reasoning.length :=
    findSub_append_self (by decide) h answer
  have hrest : (reasoning ++ (closeTag ++ answer)).drop (reasoning.length + closeTag.length) =
      answer := by
    rw [← List.drop_drop, List.drop_left, List.drop_left]
  rw [thinkBlocks]
  split
  · rename_i hnone
    simp [hopen] at hnone
  · rename_i i hsome
    obtain rfl := Option.some.inj (hopen.symm.trans hsome)
    simp only [hinner, hclose, hrest, List.take_left, List.take_zero, List.nil_append]

/-- The content and the reasoning that `transform_message` takes out of a message. -/
def messageAnswer (msg : Json.Fields) : Option String :=
  match classifyContent msg with
  | .str s => some (extractThinkBlocks s).2
  | .empty => some ""
  | .other => none

def messageReasoning (msg : Json.Fields) : Option String :=
  let extracted := match classifyContent msg with
    | .str s => if (extractThinkBlocks s).1 = "" then none else some (extractThinkBlocks s).1
    | _ => none
  ((fieldReasoning msg).or extracted).filter (· ≠ "")

variable {target : ThinkingFormat} {msg : Json.Fields} {reasoning answer : String}

theorem transformMessageFields_eq (h : FieldTarget target) (msg : Json.Fields) :
    transformMessageFields target msg =
      insertOption "content" (messageAnswer msg)
        (insertOption (targetField target) (messageReasoning msg) (removeReasoning msg)) := by
  rcases h with rfl | rfl <;>
    simp only [transformMessageFields, messageAnswer, messageReasoning] <;>
    cases classifyContent msg <;> rfl

theorem get_insertOption (key k : String) (value : Option String) (fields : Json.Fields) :
    (insertOption key value fields).get k =
      if k = key then (value.map Json.str).or (fields.get k) else fields.get k := by
  cases value with
  | none => simp [insertOption]
  | some s =>
    by_cases hk : k = key
    · subst hk
      simp [insertOption, Json.Fields.get_insert_self]
    · simp [insertOption, hk, Json.Fields.get_insert_ne hk]

def IsReasoningField (key : String) : Prop := key = "reasoning" ∨ key = "reasoning_content"

theorem targetField_isReasoningField (target : ThinkingFormat) :
    IsReasoningField (targetField target) := by
  cases target
  · exact .inr rfl
  · exact .inr rfl
  · exact .inl rfl
  · exact .inr rfl

theorem get_removeReasoning_self {key : String} (h : IsReasoningField key) (msg : Json.Fields) :
    (removeReasoning msg).get key = none := by
  rcases h with rfl | rfl
  · exact (Json.Fields.get_remove_ne (by decide) _).trans (Json.Fields.get_remove_self _ _)
  · exact Json.Fields.get_remove_self _ _

theorem get_removeReasoning_ne {key : String} (h : ¬IsReasoningField key) (msg : Json.Fields) :
    (removeReasoning msg).get key = msg.get key :=
  (Json.Fields.get_remove_ne (fun heq ↦ h (.inr heq)) _).trans
    (Json.Fields.get_remove_ne (fun heq ↦ h (.inl heq)) _)

theorem content_not_reasoning : ¬IsReasoningField "content" := by
  rintro (h | h)
  · exact absurd h (by decide)
  · exact absurd h (by decide)

theorem get_transformMessageFields (h : FieldTarget target) (msg : Json.Fields) :
    let out := transformMessageFields target msg
    out.get "content" = ((messageAnswer msg).map Json.str).or (msg.get "content") ∧
      out.get (targetField target) = (messageReasoning msg).map Json.str ∧
      (∀ key, IsReasoningField key → key ≠ targetField target → out.get key = none) ∧
      ∀ key, key ≠ "content" → ¬IsReasoningField key → out.get key = msg.get key := by
  have hfield : targetField target ≠ "content" := targetField_ne_content _
  simp only [transformMessageFields_eq h, get_insertOption]
  refine ⟨?_, ?_, fun key hkey hne ↦ ?_, fun key hne hkey ↦ ?_⟩
  · rw [if_pos trivial, if_neg hfield.symm, get_removeReasoning_ne content_not_reasoning]
  · rw [if_neg hfield, if_pos trivial,
      get_removeReasoning_self (targetField_isReasoningField target), Option.or_none]
  · have hcontent : key ≠ "content" := fun heq ↦ content_not_reasoning (heq ▸ hkey)
    rw [if_neg hcontent, if_neg hne, get_removeReasoning_self hkey]
  · have htarget : key ≠ targetField target := fun heq ↦
      hkey (heq ▸ targetField_isReasoningField target)
    rw [if_neg hne, if_neg htarget, get_removeReasoning_ne hkey]

theorem extractThinkBlocks_of_noBlock (h : NoBlock answer.toList) :
    extractThinkBlocks answer = ("", answer) := by
  simp only [extractThinkBlocks, thinkBlocks_of_noBlock h, List.foldl_nil, String.ofList_toList,
    String.ofList_nil]

theorem extractThinkBlocks_wrapped (hr : reasoning ≠ "") (h : ¬closeTag <:+: reasoning.toList)
    (ha : NoBlock answer.toList) :
    extractThinkBlocks s!"<think>{reasoning}</think>{answer}" = (reasoning, answer) := by
  have hlist : (s!"<think>{reasoning}</think>{answer}").toList =
      openTag ++ (reasoning.toList ++ (closeTag ++ answer.toList)) := by
    simp only [toString, String.toList_append, List.append_assoc]
    rfl
  have hne : reasoning.toList ≠ [] := fun hnil ↦ hr (String.toList_eq_nil_iff.mp hnil)
  simp only [extractThinkBlocks, hlist, thinkBlocks_wrapped h, thinkBlocks_of_noBlock ha,
    List.foldl_cons, List.foldl_nil, if_neg hne, if_true, String.ofList_toList]

/-- A reasoning and an answer come back from a message in which the reasoning has been put into
a think block. -/
theorem thinkTag_roundtrip (h : FieldTarget target) (hreasoning : fieldReasoning msg = some reasoning)
    (hclose : ¬closeTag <:+: reasoning.toList) (hanswer : msg.get "content" = some (.str answer))
    (hblock : NoBlock answer.toList) :
    let out := transformMessage target (transformMessage .thinkTag (.obj msg))
    out.get (targetField target) = some (.str reasoning) ∧
      out.get "content" = some (.str answer) ∧
      (∀ key, IsReasoningField key → key ≠ targetField target → out.get key = none) ∧
      ∀ key, key ≠ "content" → ¬IsReasoningField key → out.get key = msg.get key := by
  have hne : reasoning ≠ "" := fieldReasoning_ne_empty hreasoning
  have htagged : transformMessage .thinkTag (.obj msg) =
      .obj (insertOption "content" (some s!"<think>{reasoning}</think>{answer}")
        (removeReasoning msg)) := by
    have hclassify : classifyContent msg = .str answer := by rw [classifyContent, hanswer]
    have hfilter : (some reasoning).filter (· ≠ "") = some reasoning := by simp [hne]
    simp only [transformMessage, transformMessageFields, hclassify, hreasoning,
      extractThinkBlocks_of_noBlock hblock, if_true, Option.or_none, hfilter]
  set tagged := insertOption "content" (some s!"<think>{reasoning}</think>{answer}")
    (removeReasoning msg) with hdef
  have hget : ∀ key, key ≠ "content" → tagged.get key = (removeReasoning msg).get key :=
    fun key hkey ↦ by rw [hdef, get_insertOption, if_neg hkey]
  have hcontent : tagged.get "content" = some (.str s!"<think>{reasoning}</think>{answer}") := by
    rw [hdef, get_insertOption, if_pos rfl]
    rfl
  have hnone : fieldReasoning tagged = none := by
    have hfield : ∀ key, IsReasoningField key → nonEmptyField tagged key = none := fun key hkey ↦ by
      rw [nonEmptyField, hget key fun heq ↦ content_not_reasoning (heq ▸ hkey),
        get_removeReasoning_self hkey]
      rfl
    rw [fieldReasoning, hfield _ (.inl rfl), hfield _ (.inr rfl)]
    rfl
  have hclassify : classifyContent tagged = .str s!"<think>{reasoning}</think>{answer}" := by
    rw [classifyContent, hcontent]
  have hextract := extractThinkBlocks_wrapped hne hclose hblock
  have hmessageAnswer : messageAnswer tagged = some answer := by
    simp only [messageAnswer, hclassify, hextract]
  have hmessageReasoning : messageReasoning tagged = some reasoning := by
    simp only [messageReasoning, hclassify, hextract, if_neg hne, hnone, Option.none_or]
    simp [hne]
  obtain ⟨hout, htarget, hother, hrest⟩ := get_transformMessageFields h tagged
  rw [htagged]
  refine ⟨?_, ?_, hother, fun key hne hkey ↦ ?_⟩
  · exact htarget.trans (by rw [hmessageReasoning]; rfl)
  · exact hout.trans (by rw [hmessageAnswer]; rfl)
  · exact (hrest key hne hkey).trans ((hget key hne).trans (get_removeReasoning_ne hkey msg))

theorem thinkTag_roundtrip_stray_close :
    (transformMessage .reasoning (transformMessage .thinkTag
        (.obj [("content", .str "</think>a<think>"), ("reasoning", .str "b<think>c")]))).get
        "reasoning" = some (.str "b<think>c") ∧
      (transformMessage .reasoning (transformMessage .thinkTag
        (.obj [("content", .str "</think>a<think>"), ("reasoning", .str "b<think>c")]))).get
        "content" = some (.str "</think>a<think>") := by
  have h := @thinkTag_roundtrip .reasoning
    [("content", .str "</think>a<think>"), ("reasoning", .str "b<think>c")] "b<think>c"
    "</think>a<think>" (.inl rfl) rfl (by decide) rfl
    (noBlock_of_thinkBlocks (by decide +kernel))
  exact ⟨h.1, h.2.1⟩

/-- What is left of a text outside its blocks, each of which ends at the first closing tag. -/
inductive Outside : List Char → List Char → Prop
  | rest {s : List Char} (h : NoBlock s) : Outside s s
  | block {a b c r : List Char} (ha : ¬openTag <:+: a) (hb : ¬closeTag <:+: b) (h : Outside c r) :
      Outside (a ++ (openTag ++ (b ++ (closeTag ++ c)))) (a ++ r)

theorem thinkBlocks_block {a b : List Char} (ha : ¬openTag <:+: a) (hb : ¬closeTag <:+: b) (c : List Char) :
    (thinkBlocks (a ++ (openTag ++ (b ++ (closeTag ++ c))))).2 = a ++ (thinkBlocks c).2 := by
  have hopen : findSub openTag (a ++ (openTag ++ (b ++ (closeTag ++ c)))) = some a.length :=
    findSub_append_self (by decide) ha _
  have hinner : (a ++ (openTag ++ (b ++ (closeTag ++ c)))).drop (a.length + openTag.length) =
      b ++ (closeTag ++ c) := by
    rw [← List.drop_drop, List.drop_left, List.drop_left]
  have hclose : findSub closeTag (b ++ (closeTag ++ c)) = some b.length :=
    findSub_append_self (by decide) hb c
  have hrest : (b ++ (closeTag ++ c)).drop (b.length + closeTag.length) = c := by
    rw [← List.drop_drop, List.drop_left, List.drop_left]
  rw [thinkBlocks]
  split
  · rename_i hnone
    rw [hopen] at hnone
    cases hnone
  · rename_i i hsome
    obtain rfl := Option.some.inj (hopen.symm.trans hsome)
    simp only [hinner, hclose, hrest, List.take_left]

theorem outside_thinkBlocks (s : List Char) : Outside s (thinkBlocks s).2 := by
  fun_induction thinkBlocks s with
  | case1 s hopen =>
    apply Outside.rest
    apply noBlock_of_thinkBlocks
    fun_cases thinkBlocks s with
    | case1 => rfl
    | case2 => rfl
    | case3 i hsome =>
      rw [hopen] at hsome
      cases hsome
  | case2 s i hopen inner hclose =>
    apply Outside.rest
    apply noBlock_of_thinkBlocks
    fun_cases thinkBlocks s with
    | case1 => rfl
    | case2 => rfl
    | case3 i' hsome inner' j hfound =>
      obtain rfl := Option.some.inj (hopen.symm.trans hsome)
      rw [hclose] at hfound
      cases hfound
  | case3 s i hopen inner j hclose r ih =>
    have hs : s = s.take i ++ (openTag ++ (inner.take j ++ (closeTag ++
        inner.drop (j + closeTag.length)))) := by
      rw [← findSub_split hclose]
      exact findSub_split hopen
    have hblock := Outside.block (not_infix_take openTag_ne_nil hopen)
      (not_infix_take closeTag_ne_nil hclose) ih
    rwa [← hs] at hblock

theorem thinkBlocks_of_outside {s r : List Char} (h : Outside s r) : (thinkBlocks s).2 = r := by
  induction h with
  | rest h => rw [thinkBlocks_of_noBlock h]
  | block ha hb _ ih => rw [thinkBlocks_block ha hb, ih]

/-- The texts of a message that are reasoning: its two fields, and its think blocks. -/
def reasoningTexts (v : Json) : List (List Char) :=
  fieldText "reasoning" v :: fieldText "reasoning_content" v ::
    (thinkBlocks (fieldText "content" v)).1

/-- The conversion of a message loses no reasoning, leaves no think block, and is idempotent. -/
structure Converted (target : ThinkingFormat) (v : Json) : Prop where
  reasoning : ∀ text ∈ reasoningTexts v,
    text <:+: fieldText (targetField target) (transformMessage target v)
  content : NoBlock (fieldText "content" (transformMessage target v))
  idempotent : ∀ key, (transformMessage target (transformMessage target v)).get key =
    (transformMessage target v).get key

/-- A field with reasoning holds all reasoning texts of the message, and the texts around the
think blocks make no block together. -/
structure Compatible (v : Json) : Prop where
  field : deltaReasoning v ≠ [] → ∀ text ∈ reasoningTexts v, text <:+: deltaReasoning v
  seams : ∀ rest, Outside (fieldText "content" v) rest → NoBlock rest

theorem seams_iff {s : List Char} :
    (∀ rest, Outside s rest → NoBlock rest) ↔ NoBlock (thinkBlocks s).2 := by
  constructor
  · intro h
    exact h _ (outside_thinkBlocks s)
  · intro h rest hrest
    rwa [← thinkBlocks_of_outside hrest]

theorem infix_joinPiece (reasoning piece : List Char) :
    reasoning <:+: joinPiece reasoning piece ∧ piece <:+: joinPiece reasoning piece := by
  rw [joinPiece]
  split
  · rename_i hp
    exact ⟨List.infix_rfl, hp ▸ List.nil_infix⟩
  · split
    · rename_i hr
      exact ⟨hr ▸ List.nil_infix, List.infix_rfl⟩
    · exact ⟨(List.prefix_append _ _).isInfix, ((List.suffix_cons _ _).trans
        (List.suffix_append _ _)).isInfix⟩

theorem infix_foldl_joinPiece (pieces : List (List Char)) (reasoning : List Char) :
    reasoning <:+: pieces.foldl joinPiece reasoning ∧
      ∀ piece ∈ pieces, piece <:+: pieces.foldl joinPiece reasoning := by
  induction pieces generalizing reasoning with
  | nil => exact ⟨List.infix_rfl, fun piece hpiece ↦ absurd hpiece List.not_mem_nil⟩
  | cons first pieces ih =>
    obtain ⟨hstart, hpieces⟩ := ih (joinPiece reasoning first)
    obtain ⟨hreasoning, hfirst⟩ := infix_joinPiece reasoning first
    rw [List.foldl_cons]
    refine ⟨hreasoning.trans hstart, fun piece hpiece ↦ ?_⟩
    rcases List.mem_cons.mp hpiece with rfl | hpiece
    · exact hfirst.trans hstart
    · exact hpieces piece hpiece

theorem noBlock_nil : NoBlock [] := by
  intro a b c h
  have hlen := congrArg List.length h
  have htag := List.length_pos_iff.mpr openTag_ne_nil
  simp only [List.length_append, List.length_nil] at hlen
  omega

theorem thinkBlocks_nil : thinkBlocks [] = ([], []) := thinkBlocks_of_noBlock noBlock_nil

theorem classifyContent_cases (msg : Json.Fields) :
    (∃ s, classifyContent msg = .str s ∧ fieldText "content" (.obj msg) = s.toList) ∨
      (classifyContent msg = .empty ∨ classifyContent msg = .other) ∧
        fieldText "content" (.obj msg) = [] := by
  rw [classifyContent, fieldText_obj]
  cases hget : Json.Fields.get msg "content" with
  | none => exact .inr ⟨.inl rfl, rfl⟩
  | some v =>
    cases v with
    | str s => exact .inl ⟨s, rfl, rfl⟩
    | null => exact .inr ⟨.inl rfl, rfl⟩
    | bool | num | arr | obj => exact .inr ⟨.inr rfl, rfl⟩

theorem get_of_str {s : String} (h : classifyContent msg = .str s) :
    msg.get "content" = some (.str s) := by
  rw [classifyContent] at h
  split at h
  · rename_i s' hget
    obtain rfl := ContentKind.str.inj h
    exact hget
  · cases h
  · cases h
  · cases h

theorem classifyContent_converted (h : FieldTarget target) (msg : Json.Fields) :
    classifyContent (transformMessageFields target msg) ≠ .empty := by
  obtain ⟨hcontent, -⟩ := get_transformMessageFields h msg
  rw [classifyContent, hcontent]
  cases hclass : classifyContent msg with
  | str s => simp [messageAnswer, hclass]
  | empty => simp [messageAnswer, hclass]
  | other =>
    have hnone : messageAnswer msg = none := by simp [messageAnswer, hclass]
    rw [hnone, Option.map_none, Option.none_or, ← classifyContent, hclass]
    exact ContentKind.noConfusion

theorem filter_of_ne {s : String} (h : s ≠ "") :
    (some s).filter (fun s ↦ decide (s ≠ "")) = some s := by
  simp [Option.filter, h]

theorem filter_messageReasoning (msg : Json.Fields) :
    (messageReasoning msg).filter (fun s ↦ decide (s ≠ "")) = messageReasoning msg := by
  rw [messageReasoning, Option.filter_filter]
  simp

theorem fieldText_map_str (key : String) (obj : Json.Fields) (text : Option String)
    (h : obj.get key = text.map Json.str) :
    fieldText key (.obj obj) = (text.map String.toList).getD [] := by
  rw [fieldText_obj, h]
  cases text <;> rfl

theorem messageReasoning_text (msg : Json.Fields) :
    ((messageReasoning msg).map String.toList).getD [] =
      if deltaReasoning (.obj msg) = [] then
        (thinkBlocks (fieldText "content" (.obj msg))).1.foldl joinPiece []
      else deltaReasoning (.obj msg) := by
  cases hr : fieldReasoning msg with
  | some r =>
    have hne := fieldReasoning_ne_empty hr
    have htext : deltaReasoning (.obj msg) = r.toList := by simp [deltaReasoning, hr]
    have hlist : r.toList ≠ [] := fun hnil ↦ hne (String.toList_eq_nil_iff.mp hnil)
    rw [htext, if_neg hlist, messageReasoning, hr, Option.some_or, filter_of_ne hne]
    rfl
  | none =>
    have htext : deltaReasoning (.obj msg) = [] := by simp [deltaReasoning, hr]
    rw [htext, if_pos rfl, messageReasoning, hr]
    rcases classifyContent_cases msg with ⟨s, hclass, hs⟩ | ⟨hclass, hs⟩
    · obtain ⟨hjoin, -⟩ := toList_extractThinkBlocks s
      rw [hclass, hs, ← hjoin]
      by_cases hempty : (extractThinkBlocks s).1 = ""
      · simp [hempty]
      · simp only [if_neg hempty, Option.none_or, filter_of_ne hempty]
        rfl
    · rw [hs, thinkBlocks_nil]
      rcases hclass with hclass | hclass <;> simp [hclass]

theorem fieldText_converted (h : FieldTarget target) (msg : Json.Fields) :
    fieldText "content" (transformMessage target (.obj msg)) =
        (thinkBlocks (fieldText "content" (.obj msg))).2 ∧
      fieldText (targetField target) (transformMessage target (.obj msg)) =
        if deltaReasoning (.obj msg) = [] then
          (thinkBlocks (fieldText "content" (.obj msg))).1.foldl joinPiece []
        else deltaReasoning (.obj msg) := by
  obtain ⟨hcontent, htarget, -⟩ := get_transformMessageFields h msg
  refine ⟨?_, (fieldText_map_str _ _ _ htarget).trans (messageReasoning_text msg)⟩
  rcases classifyContent_cases msg with ⟨s, hclass, hs⟩ | ⟨hclass | hclass, hs⟩
  · obtain ⟨-, hrem⟩ := toList_extractThinkBlocks s
    rw [messageAnswer, hclass] at hcontent
    rw [hs, ← hrem]
    exact fieldText_map_str _ _ (some (extractThinkBlocks s).2) hcontent
  · rw [messageAnswer, hclass] at hcontent
    rw [hs, thinkBlocks_nil]
    exact fieldText_map_str _ _ (some "") hcontent
  · rw [messageAnswer, hclass] at hcontent
    rw [hs, thinkBlocks_nil, transformMessage, fieldText_obj, hcontent]
    exact hs

theorem converted_twice (h : FieldTarget target) (msg : Json.Fields)
    (hblock : NoBlock (thinkBlocks (fieldText "content" (.obj msg))).2) (key : String) :
    (transformMessageFields target (transformMessageFields target msg)).get key =
      (transformMessageFields target msg).get key := by
  set out := transformMessageFields target msg with hout
  obtain ⟨hcontent, htarget, hother, hrest⟩ := get_transformMessageFields h msg
  obtain ⟨hcontent', htarget', hother', hrest'⟩ := get_transformMessageFields h out
  rw [← hout] at hcontent htarget hother hrest
  have hclean : ∀ c, classifyContent out = .str c → extractThinkBlocks c = ("", c) := by
    intro c hclass
    have htext : fieldText "content" (.obj out) = c.toList := by
      rw [fieldText_obj, get_of_str hclass]
      rfl
    have hc := htext.symm.trans (fieldText_converted h msg).1
    exact extractThinkBlocks_of_noBlock (hc ▸ hblock)
  have hfield : fieldReasoning out = messageReasoning msg := by
    have hself : nonEmptyField out (targetField target) = messageReasoning msg := by
      have hstr : ∀ text : Option String, (text.map Json.str).bind Json.asStr = text :=
        fun text ↦ by cases text <;> rfl
      rw [nonEmptyField, htarget, hstr]
      exact filter_messageReasoning msg
    have hrival : ∀ k, IsReasoningField k → k ≠ targetField target → nonEmptyField out k = none :=
      fun k hk hne ↦ by rw [nonEmptyField, hother k hk hne]; rfl
    rcases h with rfl | rfl
    · rw [fieldReasoning, hrival "reasoning_content" (.inr rfl) (by decide), Option.or_none]
      exact hself
    · rw [fieldReasoning, hrival "reasoning" (.inl rfl) (by decide), Option.none_or]
      exact hself
  have hreasoning : messageReasoning out = messageReasoning msg := by
    rw [messageReasoning, hfield, ← filter_messageReasoning msg]
    rcases classifyContent_cases out with ⟨c, hclass, -⟩ | ⟨hclass | hclass, -⟩
    · simp [hclass, hclean c hclass]
    · simp [hclass]
    · simp [hclass]
  have hanswer : ((messageAnswer out).map Json.str).or (out.get "content") =
      out.get "content" := by
    rcases classifyContent_cases out with ⟨c, hclass, -⟩ | ⟨hclass | hclass, -⟩
    · simp only [messageAnswer, hclass, hclean c hclass, get_of_str hclass]
      rfl
    · exact absurd hclass (classifyContent_converted h msg)
    · simp only [messageAnswer, hclass]
      rfl
  by_cases hkey : key = "content"
  · rw [hkey]
    exact hcontent'.trans hanswer
  · by_cases hfield : IsReasoningField key
    · by_cases hne : key = targetField target
      · rw [hne, htarget', htarget, hreasoning]
      · rw [hother' key hfield hne, hother key hfield hne]
    · exact hrest' key hkey hfield

theorem deltaReasoning_eq_fields {msg : Json.Fields} (h : deltaReasoning (.obj msg) = []) :
    fieldText "reasoning" (.obj msg) = [] ∧ fieldText "reasoning_content" (.obj msg) = [] := by
  obtain ⟨hr, hrc⟩ := Option.or_eq_none_iff.mp (deltaReasoning_eq_nil h)
  exact ⟨fieldText_eq_nil hr, fieldText_eq_nil hrc⟩

/-- The conversion of a message does all this exactly if its reasoning texts are compatible. -/
theorem converted_iff_compatible (h : FieldTarget target) (v : Json) :
    Converted target v ↔ Compatible v := by
  cases v with
  | obj msg =>
    obtain ⟨hcontent, htarget⟩ := fieldText_converted h msg
    constructor
    · rintro ⟨hreasoning, hblock, -⟩
      refine ⟨fun hne text htext ↦ ?_, seams_iff.mpr (hcontent ▸ hblock)⟩
      have hin := hreasoning text htext
      rwa [htarget, if_neg hne] at hin
    · rintro ⟨hfield, hrest⟩
      have hseams := seams_iff.mp hrest
      refine ⟨fun text htext ↦ ?_, hcontent ▸ hseams, converted_twice h msg hseams⟩
      rw [htarget]
      by_cases hnone : deltaReasoning (.obj msg) = []
      · obtain ⟨hr, hrc⟩ := deltaReasoning_eq_fields hnone
        rw [if_pos hnone]
        rcases List.mem_cons.mp htext with rfl | htext
        · rw [hr]
          exact List.nil_infix
        · rcases List.mem_cons.mp htext with rfl | htext
          · rw [hrc]
            exact List.nil_infix
          · exact (infix_foldl_joinPiece _ []).2 text htext
      · rw [if_neg hnone]
        exact hfield hnone text htext
  | null | bool | num | str | arr =>
    refine ⟨fun _ ↦ ⟨fun hne ↦ absurd rfl hne, ?_⟩, fun _ ↦ ⟨fun text htext ↦ ?_, ?_, fun _ ↦ rfl⟩⟩
    · exact seams_iff.mpr ((congrArg (fun r ↦ NoBlock r.2) thinkBlocks_nil).mpr noBlock_nil)
    · have hnil : text = [] := by
        simpa [reasoningTexts, fieldText, Json.get, thinkBlocks_nil] using htext
      rw [hnil]
      exact List.nil_infix
    · exact noBlock_nil

theorem converted_iff_compatible_blocks :
    Converted .reasoning (.obj [("content", .str "<think>a</think>b<think>c</think>d")]) ↔
      Compatible (.obj [("content", .str "<think>a</think>b<think>c</think>d")]) :=
  converted_iff_compatible (.inl rfl) _

theorem block_beside_field_dropped :
    ¬Converted .reasoning (.obj [("content", .str "<think>b</think>c"), ("reasoning", .str "a")]) :=
  fun h ↦ absurd (h.reasoning ['b'] (by decide +kernel)) (by decide +kernel)

end QueQiao.ThinkingTransformer
