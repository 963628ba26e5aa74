import QueQiao.Models.Json

/-! Texts of JSON values, as syntax trees. -/

namespace QueQiao.JsonText

inductive Blank
  | space
  | tab
  | lineFeed
  | carriageReturn
  deriving DecidableEq, Repr

def Blank.char : Blank → Char
  | space => ' '
  | tab => '\t'
  | lineFeed => '\n'
  | carriageReturn => '\r'

def blanks (ws : List Blank) : List Char := ws.map Blank.char

structure HexDigit where
  value : Fin 16
  upper : Bool
  deriving DecidableEq, Repr

def HexDigit.char (d : HexDigit) : Char :=
  Char.ofNat <|
    if d.value < 10 then '0'.toNat + d.value
    else (if d.upper then 'A'.toNat else 'a'.toNat) + (d.value - 10)

structure CodeUnit where
  d₀ : HexDigit
  d₁ : HexDigit
  d₂ : HexDigit
  d₃ : HexDigit
  deriving DecidableEq, Repr

namespace CodeUnit

def text (u : CodeUnit) : List Char := [u.d₀.char, u.d₁.char, u.d₂.char, u.d₃.char]

def value (u : CodeUnit) : ℕ :=
  ((u.d₀.value * 16 + u.d₁.value) * 16 + u.d₂.value) * 16 + u.d₃.value

def isHigh (u : CodeUnit) : Bool := 0xD800 ≤ u.value && u.value < 0xDC00

def isLow (u : CodeUnit) : Bool := 0xDC00 ≤ u.value && u.value < 0xE000

end CodeUnit

inductive Escape
  | quote
  | backslash
  | slash
  | backspace
  | formFeed
  | lineFeed
  | carriageReturn
  | tab
  deriving DecidableEq, Repr

def Escape.chars : Escape → Char × Char
  | quote => ('"', '"')
  | backslash => ('\\', '\\')
  | slash => ('/', '/')
  | backspace => ('b', '\x08')
  | formFeed => ('f', '\x0c')
  | lineFeed => ('n', '\n')
  | carriageReturn => ('r', '\r')
  | tab => ('t', '\t')

def isUnescaped (c : Char) : Bool := 0x20 ≤ c.toNat && c ≠ '"' && c ≠ '\\'

/-- A character of a string: itself, an escape, or one or two units of UTF-16. -/
inductive StrChar
  | plain (c : Char) (unescaped : isUnescaped c = true)
  | escape (e : Escape)
  | unicode (u : CodeUnit) (scalar : (u.isHigh || u.isLow) = false)
  | pair (high low : CodeUnit) (surrogates : (high.isHigh && low.isLow) = true)

namespace StrChar

def text : StrChar → List Char
  | plain c _ => [c]
  | escape e => ['\\', e.chars.1]
  | unicode u _ => '\\' :: 'u' :: u.text
  | pair high low _ => '\\' :: 'u' :: high.text ++ '\\' :: 'u' :: low.text

def char : StrChar → Char
  | plain c _ => c
  | escape e => e.chars.2
  | unicode u _ => Char.ofNat u.value
  | pair high low _ =>
    Char.ofNat (0x10000 + (high.value - 0xD800) * 0x400 + (low.value - 0xDC00))

def isPlain : StrChar → Bool
  | plain _ _ => true
  | _ => false

end StrChar

abbrev StringText := List StrChar

namespace StringText

def text (s : StringText) : List Char := '"' :: (s.flatMap StrChar.text ++ ['"'])

def value (s : StringText) : String := String.ofList (s.map StrChar.char)

def Unescaped (s : StringText) : Prop := ∀ c ∈ s, c.isPlain = true

instance (s : StringText) : Decidable s.Unescaped :=
  inferInstanceAs (Decidable (∀ c ∈ s, c.isPlain = true))

/-- The text that spells a string without escapes, of the characters that need none. -/
def ofPlain (s : String) : StringText :=
  s.toList.filterMap fun c ↦ if h : isUnescaped c = true then some (.plain c h) else none

theorem text_of_unescaped {s : StringText} (h : s.Unescaped) :
    s.text = '"' :: (s.value.toList ++ ['"']) := by
  have hchars : s.flatMap StrChar.text = s.map StrChar.char := by
    rw [List.map_eq_flatMap]
    refine List.flatMap_congr fun c hc ↦ ?_
    cases c with
    | plain => rfl
    | escape | unicode | pair => exact absurd (h _ hc) Bool.false_ne_true
  rw [text, hchars, value, String.toList_ofList]

end StringText

abbrev Digits := { ds : List (Fin 10) // ds ≠ [] }

def digitChars (ds : List (Fin 10)) : List Char := ds.map fun d ↦ Char.ofNat ('0'.toNat + d)

structure Exponent where
  upper : Bool
  negative : Option Bool
  digits : Digits

structure NumberText where
  negative : Bool
  whole : Digits
  noLeadingZero : whole.1.head? = some 0 → whole.1.length = 1
  fraction : Option Digits
  exponent : Option Exponent

def Exponent.text (e : Exponent) : List Char :=
  (if e.upper then 'E' else 'e') ::
    ((e.negative.map fun negative ↦ if negative then '-' else '+').toList ++ digitChars e.digits)

def NumberText.text (n : NumberText) : List Char :=
  (if n.negative then ['-'] else []) ++ digitChars n.whole ++
    (n.fraction.elim [] fun ds ↦ '.' :: digitChars ds) ++ n.exponent.elim [] Exponent.text

mutual

inductive Value
  | null
  | bool (b : Bool)
  | num (n : NumberText)
  | str (s : StringText)
  | emptyArr (inner : List Blank)
  | arr (items : Items)
  | emptyObj (inner : List Blank)
  | obj (members : Members)

inductive Item
  | mk (before : List Blank) (value : Value) (after : List Blank)

inductive Items
  | one (item : Item)
  | cons (item : Item) (items : Items)

inductive Member
  | mk (before : List Blank) (key : StringText) (afterKey beforeValue : List Blank) (value : Value)
    (after : List Blank)

inductive Members
  | one (member : Member)
  | cons (member : Member) (members : Members)

end

mutual

def Value.text : Value → List Char
  | .null => "null".toList
  | .bool b => (toString b).toList
  | .num n => n.text
  | .str s => s.text
  | .emptyArr inner => '[' :: (blanks inner ++ [']'])
  | .arr items => '[' :: (items.text ++ [']'])
  | .emptyObj inner => '{' :: (blanks inner ++ ['}'])
  | .obj members => '{' :: (members.text ++ ['}'])

def Item.text : Item → List Char
  | .mk before value after => blanks before ++ value.text ++ blanks after

def Items.text : Items → List Char
  | .one item => item.text
  | .cons item items => item.text ++ ',' :: items.text

def Member.text : Member → List Char
  | .mk before key afterKey beforeValue value after =>
    blanks before ++ (key.text ++ (blanks afterKey ++ ':' :: (blanks beforeValue ++
      (value.text ++ blanks after))))

def Members.text : Members → List Char
  | .one member => member.text
  | .cons member members => member.text ++ ',' :: members.text

end

section Reading

-- how numbers are read
variable (num : NumberText → ℚ)

mutual

/-- The value of a text. Of the members of an object with one key the last one counts. -/
def Value.toJson : Value → Json
  | .null => .null
  | .bool b => .bool b
  | .num n => .num (num n)
  | .str s => .str s.value
  | .emptyArr _ => .arr []
  | .arr items => .arr items.toJson
  | .emptyObj _ => .obj []
  | .obj members => .obj (members.fields [])

def Item.toJson : Item → Json
  | .mk _ value _ => value.toJson

def Items.toJson : Items → List Json
  | .one item => [item.toJson]
  | .cons item items => item.toJson :: items.toJson

def Member.insert : Member → Json.Fields → Json.Fields
  | .mk _ key _ _ value _, fields => Json.Fields.insert key.value value.toJson fields

def Members.fields : Members → Json.Fields → Json.Fields
  | .one member, fields => member.insert fields
  | .cons member members, fields => members.fields (member.insert fields)

end

end Reading

structure Document where
  before : List Blank
  value : Value
  after : List Blank

def Document.text (t : Document) : List Char := blanks t.before ++ (t.value.text ++ blanks t.after)

def Member.key : Member → StringText
  | .mk _ key _ _ _ _ => key

def Member.value : Member → Value
  | .mk _ _ _ _ value _ => value

def Members.toList : Members → List Member
  | .one member => [member]
  | .cons member members => member :: members.toList

def Document.members (t : Document) : List Member :=
  match t.value with
  | .obj members => members.toList
  | _ => []

variable {num : NumberText → ℚ}

theorem Value.eq_emptyArr {v : Value} (h : v.toJson num = .arr []) :
    ∃ inner, v = .emptyArr inner := by
  cases v with
  | emptyArr inner => exact ⟨inner, rfl⟩
  | arr items =>
    rw [Value.toJson] at h
    cases items <;> simp [Items.toJson] at h
  | null | bool | num | str | emptyObj | obj =>
    rw [Value.toJson] at h
    cases h

theorem Members.get_fields {members : Members} {fields : Json.Fields} {key : String} {v : Json}
    (h : Json.Fields.get (members.fields num fields) key = some v) :
    Json.Fields.get fields key = some v ∨
      ∃ m ∈ members.toList, m.key.value = key ∧ m.value.toJson num = v := by
  have hinsert (m : Member) (fields : Json.Fields)
      (h : Json.Fields.get (m.insert num fields) key = some v) :
      Json.Fields.get fields key = some v ∨ m.key.value = key ∧ m.value.toJson num = v := by
    obtain ⟨_, k, _, _, value, _⟩ := m
    rw [Member.insert] at h
    by_cases hkey : key = k.value
    · rw [← hkey, Json.Fields.get_insert_self] at h
      exact .inr ⟨hkey.symm, Option.some.inj h⟩
    · rw [Json.Fields.get_insert_ne hkey] at h
      exact .inl h
  cases members with
  | one m =>
    rw [Members.fields] at h
    rcases hinsert m fields h with hget | hm
    · exact .inl hget
    · exact .inr ⟨m, .head _, hm⟩
  | cons m members =>
    rw [Members.fields] at h
    rcases Members.get_fields h with hget | ⟨m', hm', hkey⟩
    · rcases hinsert m fields hget with hget | hm
      · exact .inl hget
      · exact .inr ⟨m, .head _, hm⟩
    · exact .inr ⟨m', .tail _ hm', hkey⟩

theorem Document.exists_member {t : Document} {key : String} {v : Json}
    (h : (t.value.toJson num).get key = some v) :
    ∃ m ∈ t.members, m.key.value = key ∧ m.value.toJson num = v := by
  rw [Document.members]
  cases hvalue : t.value with
  | obj members =>
    rw [hvalue, Value.toJson] at h
    rcases Members.get_fields h with hget | hm
    · cases hget
    · exact hm
  | null | bool | num | str | emptyArr | arr | emptyObj =>
    rw [hvalue, Value.toJson] at h
    cases h

theorem Members.text_of_mem {members : Members} {m : Member} (h : m ∈ members.toList) :
    ∃ pre post, members.text = pre ++ (m.text ++ post) ∧
      (pre = [] ∨ ∃ pre', pre = pre' ++ [',']) := by
  cases members with
  | one m' =>
    obtain rfl := List.mem_singleton.mp h
    exact ⟨[], [], by rw [Members.text]; simp, .inl rfl⟩
  | cons m' members =>
    rcases List.mem_cons.mp h with rfl | h
    · exact ⟨[], ',' :: members.text, by rw [Members.text]; rfl, .inl rfl⟩
    · obtain ⟨pre, post, htext, hpre⟩ := Members.text_of_mem h
      refine ⟨m'.text ++ ',' :: pre, post, ?_, .inr ?_⟩
      · rw [Members.text, htext, List.append_assoc, List.cons_append]
      · rcases hpre with rfl | ⟨pre', rfl⟩
        · exact ⟨m'.text, rfl⟩
        · exact ⟨m'.text ++ ',' :: pre', by simp⟩

theorem NumberText.head_text (n : NumberText) :
    ∃ c rest, n.text = c :: rest ∧ (c = '-' ∨ c.isDigit = true) := by
  rw [NumberText.text]
  cases n.negative with
  | true => exact ⟨'-', _, rfl, .inl rfl⟩
  | false =>
    obtain ⟨ds, hds⟩ := n.whole
    cases ds with
    | nil => exact absurd rfl hds
    | cons d ds =>
      have hdigit : ∀ d : Fin 10, (Char.ofNat ('0'.toNat + d)).isDigit = true := by decide
      exact ⟨_, _, rfl, .inr (hdigit d)⟩

def startsText (c : Char) : Bool := c.isDigit || c ∈ "-ntf\"[\x7b \t\n\r".toList

theorem Value.head_text (v : Value) : ∃ c rest, v.text = c :: rest ∧ startsText c = true := by
  cases v with
  | num n =>
    obtain ⟨c, rest, htext, hc⟩ := n.head_text
    refine ⟨c, rest, htext, ?_⟩
    rcases hc with rfl | hdigit
    · decide
    · rw [startsText, hdigit, Bool.true_or]
  | bool b => cases b <;> exact ⟨_, _, rfl, by decide⟩
  | null | str | emptyArr | arr | emptyObj | obj => exact ⟨_, _, rfl, by decide⟩

theorem Item.head_text (item : Item) :
    ∃ c rest, item.text = c :: rest ∧ startsText c = true := by
  obtain ⟨before, value, after⟩ := item
  rw [Item.text]
  cases before with
  | nil =>
    obtain ⟨c, rest, htext, hc⟩ := value.head_text
    exact ⟨c, _, by rw [htext]; rfl, hc⟩
  | cons w ws => exact ⟨w.char, _, rfl, by cases w <;> decide⟩

theorem Items.head_text (items : Items) :
    ∃ c rest, items.text = c :: rest ∧ startsText c = true := by
  cases items with
  | one item =>
    rw [Items.text]
    exact item.head_text
  | cons item items =>
    obtain ⟨c, rest, htext, hc⟩ := item.head_text
    exact ⟨c, _, by rw [Items.text, htext]; rfl, hc⟩

def isSeparator (c : Char) : Bool := c ∈ ['{', ',', ' ', '\t', '\n', '\r']

theorem Blank.isSeparator_char (b : Blank) : isSeparator b.char = true := by
  cases b <;> decide

theorem Document.text_of_mem {t : Document} {m : Member} (h : m ∈ t.members) :
    ∃ pre c afterKey beforeValue post, isSeparator c = true ∧
      t.text = pre ++ c :: (m.key.text ++ (blanks afterKey ++ ':' :: (blanks beforeValue ++
        (m.value.text ++ post)))) := by
  rw [Document.members] at h
  split at h
  · rename_i members hvalue
    obtain ⟨pre, post, htext, hpre⟩ := Members.text_of_mem h
    obtain ⟨before, key, afterKey, beforeValue, value, after⟩ := m
    -- the characters before the member, with the brace
    have hopen : ∃ pre' c, isSeparator c = true ∧ '{' :: pre = pre' ++ [c] := by
      rcases hpre with rfl | ⟨pre', rfl⟩
      · exact ⟨[], '{', by decide, rfl⟩
      · exact ⟨'{' :: pre', ',', by decide, rfl⟩
    have hbefore : ∃ pre' c, isSeparator c = true ∧ '{' :: pre ++ blanks before = pre' ++ [c] := by
      rcases List.eq_nil_or_concat before with rfl | ⟨ws, w, rfl⟩
      · simpa [blanks] using hopen
      · refine ⟨'{' :: pre ++ blanks ws, w.char, w.isSeparator_char, ?_⟩
        simp [blanks]
    obtain ⟨pre', c, hc, hsplit⟩ := hbefore
    refine ⟨blanks t.before ++ pre', c, afterKey, beforeValue,
      blanks after ++ post ++ ['}'] ++ blanks t.after, hc, ?_⟩
    have hvalue' : t.value.text = pre' ++ c :: (key.text ++ (blanks afterKey ++ ':' ::
        (blanks beforeValue ++ (value.text ++ (blanks after ++ post ++ ['}']))))) := by
      have hassoc : pre' ++ c :: (key.text ++ (blanks afterKey ++ ':' ::
          (blanks beforeValue ++ (value.text ++ (blanks after ++ post ++ ['}']))))) =
          (pre' ++ [c]) ++ (key.text ++ (blanks afterKey ++ ':' ::
          (blanks beforeValue ++ (value.text ++ (blanks after ++ post ++ ['}']))))) := by simp
      rw [hassoc, ← hsplit, hvalue, Value.text, htext, Member.text]
      simp only [List.append_assoc, List.cons_append]
    rw [Document.text, hvalue']
    simp only [Member.key, Member.value, List.append_assoc, List.cons_append]
  · cases h

end QueQiao.JsonText
