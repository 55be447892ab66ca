/-
This file is a small library about compact JSON texts: values as trees, and the
bytes they are written as. Only a number, `true`, `false` or `null` needs
something after it that cannot be part of it; every other text closes itself.
-/

import Mathlib

namespace Json

/-! ### Tokens -/

/-- The bytes of numbers and of `true`, `false` and `null`: digits, letters, signs and the point. -/
def isBare (byte : UInt8) : Bool :=
  (48 ≤ byte && byte ≤ 57) || (65 ≤ byte && byte ≤ 90) || (97 ≤ byte && byte ≤ 122) ||
    byte == 43 || byte == 45 || byte == 46

def quote : UInt8 := 34
def backslash : UInt8 := 92
def comma : UInt8 := 44
def colon : UInt8 := 58
def openBracket : UInt8 := 91
def closeBracket : UInt8 := 93
def openBrace : UInt8 := 123
def closeBrace : UInt8 := 125

/-- A token without quotes. -/
@[ext]
structure Bare where
  text : List UInt8
  nonempty : text ≠ []
  bare : ∀ byte ∈ text, isBare byte = true

/-- What a string holds between its quotes: a quote or a backslash stands there only behind a
backslash. -/
inductive Escaped : List UInt8 → Prop
  | nil : Escaped []
  | plain {byte : UInt8} {rest : List UInt8} (noQuote : byte ≠ quote)
      (noBackslash : byte ≠ backslash) (escaped : Escaped rest) : Escaped (byte :: rest)
  | escape {byte : UInt8} {rest : List UInt8} (escaped : Escaped rest) :
      Escaped (backslash :: byte :: rest)

/-- A string, by what it holds between its quotes. -/
@[ext]
structure Quoted where
  body : List UInt8
  escaped : Escaped body

/-- Bytes with a backslash before each quote and each backslash. -/
def escape (bytes : List UInt8) : List UInt8 :=
  bytes.flatMap fun byte =>
    if byte = quote ∨ byte = backslash then [backslash, byte] else [byte]

theorem escaped_escape (bytes : List UInt8) : Escaped (escape bytes) := by
  induction bytes with
  | nil => exact .nil
  | cons byte bytes inductionHypothesis =>
    rw [escape, List.flatMap_cons]
    split_ifs with special
    · exact .escape inductionHypothesis
    · obtain ⟨noQuote, noBackslash⟩ := not_or.mp special
      exact .plain noQuote noBackslash inductionHypothesis

/-- A string, by its bytes. -/
def Quoted.ofBytes (bytes : List UInt8) : Quoted := ⟨escape bytes, escaped_escape bytes⟩

/-- The bytes without the backslashes before them. -/
def unescape : List UInt8 → List UInt8
  | [] => []
  | [byte] => [byte]
  | byte :: next :: rest =>
    if byte = backslash then next :: unescape rest else byte :: unescape (next :: rest)

theorem unescape_cons {byte : UInt8} (plain : byte ≠ backslash) (rest : List UInt8) :
    unescape (byte :: rest) = byte :: unescape rest := by
  cases rest with
  | nil => rfl
  | cons next rest => rw [unescape, if_neg plain]

theorem unescape_escape (bytes : List UInt8) : unescape (escape bytes) = bytes := by
  induction bytes with
  | nil => rfl
  | cons byte bytes inductionHypothesis =>
    have split : escape (byte :: bytes) =
        (if byte = quote ∨ byte = backslash then [backslash, byte] else [byte]) ++ escape bytes :=
      List.flatMap_cons
    rw [split]
    split_ifs with special
    · show unescape (backslash :: byte :: escape bytes) = byte :: bytes
      rw [unescape, if_pos rfl, inductionHypothesis]
    · show unescape (byte :: escape bytes) = byte :: bytes
      rw [unescape_cons (not_or.mp special).2, inductionHypothesis]

theorem escape_injective : Function.Injective escape :=
  Function.LeftInverse.injective unescape_escape

/-- A string with its quotes. -/
def Quoted.text (token : Quoted) : List UInt8 := quote :: (token.body ++ [quote])

end Json

/-! ### Values -/

/-- A JSON value; the members of an object are in the order they are written in. -/
inductive Json
  | bare (token : Json.Bare)
  | string (token : Json.Quoted)
  | array (items : List Json)
  | object (members : List (Json.Quoted × Json))

namespace Json

/-- The word `true` or `false`. -/
def ofBool (value : Bool) : Json :=
  .bare (if value then ⟨[116, 114, 117, 101], by decide, by decide +kernel⟩
    else ⟨[102, 97, 108, 115, 101], by decide, by decide +kernel⟩)

/-- The word `null`. -/
def null : Json := .bare ⟨[110, 117, 108, 108], by decide, by decide +kernel⟩

theorem ofBool_injective : Function.Injective ofBool := by
  intro left right same
  cases left <;> cases right
  · rfl
  · exact absurd (congrArg Bare.text (Json.bare.inj same)) (by decide)
  · exact absurd (congrArg Bare.text (Json.bare.inj same)) (by decide)
  · rfl

mutual

/-- The compact text of a value. -/
def render : Json → List UInt8
  | .bare token => token.text
  | .string token => token.text
  | .array items => openBracket :: renderItems [] items
  | .object members => openBrace :: renderMembers [] members

/-- What is left of an array: the items still to come, each behind a comma except perhaps the
first, and the closing bracket. -/
def renderItems (separator : List UInt8) : List Json → List UInt8
  | [] => [closeBracket]
  | item :: rest => separator ++ (item.render ++ renderItems [comma] rest)

/-- What is left of an object. -/
def renderMembers (separator : List UInt8) : List (Quoted × Json) → List UInt8
  | [] => [closeBrace]
  | (key, value) :: rest =>
    separator ++ (key.text ++ colon :: (value.render ++ renderMembers [comma] rest))

end

/-! ### Where a token ends -/

/-- A text that cannot go on a bare token. -/
def Ends (text : List UInt8) : Prop := ∀ byte ∈ text.head?, isBare byte = false

theorem ends_nil : Ends [] := fun byte member => by simp at member

theorem ends_cons {byte : UInt8} (ending : isBare byte = false) (rest : List UInt8) :
    Ends (byte :: rest) := by
  intro first member
  rw [List.head?_cons, Option.mem_some_iff] at member
  rw [← member]
  exact ending

/-- Bare bytes with an end behind them are found again. -/
theorem takeWhile_bare {token rest : List UInt8} (bare : ∀ byte ∈ token, isBare byte = true)
    (ends : Ends rest) : (token ++ rest).takeWhile isBare = token := by
  rw [List.takeWhile_append_of_pos bare]
  cases rest with
  | nil => simp
  | cons first rest =>
    have stop : isBare first = false := ends first rfl
    simp [stop]

/-! ### Where a value ends -/

/-- What a value is, without its contents. -/
inductive Kind
  | bare | string | array | object
deriving DecidableEq

def kind : Json → Kind
  | .bare _ => .bare
  | .string _ => .string
  | .array _ => .array
  | .object _ => .object

/-- The kind of the values that begin with a byte; no value begins with a closing one. -/
def kindOf (byte : UInt8) : Option Kind :=
  if isBare byte then some .bare
  else if byte = quote then some .string
  else if byte = openBracket then some .array
  else if byte = openBrace then some .object
  else none

theorem render_kind (value : Json) :
    ∃ byte rest, value.render = byte :: rest ∧ kindOf byte = some value.kind := by
  cases value with
  | bare token =>
    rw [render]
    cases shape : token.text with
    | nil => exact absurd shape token.nonempty
    | cons byte rest =>
      have bare : isBare byte = true := token.bare byte (shape ▸ List.mem_cons_self)
      exact ⟨byte, rest, rfl, if_pos bare⟩
  | string token => exact ⟨quote, _, by rw [render, Quoted.text], rfl⟩
  | array items => exact ⟨openBracket, _, by rw [render], rfl⟩
  | object members => exact ⟨openBrace, _, by rw [render], rfl⟩

/-- No value begins with a closing bracket. -/
theorem render_ne_close (value : Json) (before after : List UInt8) :
    value.render ++ before ≠ closeBracket :: after := by
  intro same
  obtain ⟨byte, rest, text, kind⟩ := render_kind value
  rw [text, List.cons_append] at same
  rw [(List.cons.inj same).1] at kind
  exact nomatch kind

/-- What is left of an array ends any bare token before it. -/
theorem ends_renderItems (items : List Json) (rest : List UInt8) :
    Ends (renderItems [comma] items ++ rest) := by
  cases items with
  | nil => exact ends_cons (by decide) _
  | cons item items => exact ends_cons (by decide) _

/-- What is left of an object ends any bare token before it. -/
theorem ends_renderMembers (members : List (Quoted × Json)) (rest : List UInt8) :
    Ends (renderMembers [comma] members ++ rest) := by
  cases members with
  | nil => exact ends_cons (by decide) _
  | cons member members => exact ends_cons (by decide) _

/-- The list ends at the closing bracket only. -/
theorem renderItems_ne_close {separator : List UInt8} (separates : separator ∈ [[], [comma]])
    (item : Json) (items : List Json) (before after : List UInt8) :
    renderItems separator (item :: items) ++ before ≠ closeBracket :: after := by
  intro same
  rw [renderItems] at same
  rcases List.mem_pair.mp separates with rfl | rfl
  · refine render_ne_close item (renderItems [comma] items ++ before) after ?_
    rw [← List.append_assoc]
    exact same
  · exact absurd (List.cons.inj same).1 (by decide)

theorem renderMembers_ne_close {separator : List UInt8} (separates : separator ∈ [[], [comma]])
    (member : Quoted × Json) (members : List (Quoted × Json)) (before after : List UInt8) :
    renderMembers separator (member :: members) ++ before ≠ closeBrace :: after := by
  intro same
  obtain ⟨key, value⟩ := member
  rw [renderMembers] at same
  rcases List.mem_pair.mp separates with rfl | rfl
  · exact absurd (List.cons.inj same).1 (by decide)
  · exact absurd (List.cons.inj same).1 (by decide)

/-- An object ends any bare token before it. -/
theorem ends_object (members : List (Quoted × Json)) (rest : List UInt8) :
    Ends ((Json.object members).render ++ rest) := by
  rw [render]
  exact ends_cons (by decide) _

end Json
