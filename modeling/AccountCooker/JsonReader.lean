/-
This file reads compact JSON texts back. The first byte of a value says what it
is, a bare token ends before the first byte it cannot hold, and everything else
closes itself; so a text is read from the front, without looking ahead. What is
written is read back, whatever comes after it, and two equal texts that begin
with the text of a value each begin with the same value.
-/

import Mathlib
import AccountCooker.Json

namespace Json

/-! ### Tokens -/

/-- Go past some bytes. -/
def expect (front bytes : List UInt8) : Option (List UInt8) :=
  if front <+: bytes then some (bytes.drop front.length) else none

theorem expect_append (front rest : List UInt8) : expect front (front ++ rest) = some rest := by
  rw [expect, if_pos (List.prefix_append _ _), List.drop_left]

/-- Read a bare token. -/
def readBare (bytes : List UInt8) : Option (Bare × List UInt8) :=
  if nonempty : bytes.takeWhile isBare ≠ [] then
    some (⟨bytes.takeWhile isBare, nonempty, fun _ member => List.mem_takeWhile_imp member⟩,
      bytes.dropWhile isBare)
  else none

/-- Read a string from behind its opening quote. -/
def readString : List UInt8 → Option (Quoted × List UInt8)
  | [] => none
  | byte :: rest =>
    if isQuote : byte = quote then some (⟨[], .nil⟩, rest)
    else if isBackslash : byte = backslash then
      match rest with
      | [] => none
      | next :: rest =>
        (readString rest).map fun (token, rest) =>
          (⟨backslash :: next :: token.body, .escape token.escaped⟩, rest)
    else
      (readString rest).map fun (token, rest) =>
        (⟨byte :: token.body, .plain isQuote isBackslash token.escaped⟩, rest)

theorem readBare_append (token : Bare) {rest : List UInt8} (ends : Ends rest) :
    readBare (token.text ++ rest) = some (token, rest) := by
  have taken := takeWhile_bare token.bare ends
  have dropped : (token.text ++ rest).dropWhile isBare = rest := by
    have parts := List.takeWhile_append_dropWhile (p := isBare) (l := token.text ++ rest)
    rw [taken] at parts
    exact List.append_cancel_left parts
  have nonempty : (token.text ++ rest).takeWhile isBare ≠ [] := by
    rw [taken]
    exact token.nonempty
  rw [readBare, dif_pos nonempty]
  exact congrArg some (Prod.ext (Bare.ext taken) dropped)

theorem readString_append (token : Quoted) (rest : List UInt8) :
    readString (token.body ++ quote :: rest) = some (token, rest) := by
  obtain ⟨body, escaped⟩ := token
  induction escaped with
  | nil =>
    rw [List.nil_append, readString.eq_def]
    exact dif_pos rfl
  | plain noQuote noBackslash _ inductionHypothesis =>
    rw [List.cons_append, readString.eq_def]
    dsimp only
    rw [dif_neg noQuote, dif_neg noBackslash, inductionHypothesis]
    rfl
  | escape _ inductionHypothesis =>
    rw [List.cons_append, List.cons_append, readString.eq_def]
    dsimp only
    rw [dif_neg (by decide), dif_pos rfl, inductionHypothesis]
    rfl

/-! ### Values -/

mutual

/-- Read a value; `fuel` bounds the bytes it has. -/
def readValue : Nat → List UInt8 → Option (Json × List UInt8)
  | 0, _ => none
  | _, [] => none
  | fuel + 1, byte :: rest =>
    match kindOf byte with
    | none => none
    | some .bare => (readBare (byte :: rest)).map fun (token, rest) => (.bare token, rest)
    | some .string => (readString rest).map fun (token, rest) => (.string token, rest)
    | some .array => (readItems fuel [] rest).map fun (items, rest) => (.array items, rest)
    | some .object => (readMembers fuel [] rest).map fun (members, rest) => (.object members, rest)

/-- Read what is left of an array; the next item stands behind the separator. -/
def readItems : Nat → List UInt8 → List UInt8 → Option (List Json × List UInt8)
  | 0, _, _ => none
  | fuel + 1, separator, bytes =>
    if bytes.head? = some closeBracket then some ([], bytes.tail)
    else do
      let bytes ← expect separator bytes
      let (item, bytes) ← readValue fuel bytes
      let (items, bytes) ← readItems fuel [comma] bytes
      some (item :: items, bytes)

/-- Read what is left of an object. -/
def readMembers : Nat → List UInt8 → List UInt8 → Option (List (Quoted × Json) × List UInt8)
  | 0, _, _ => none
  | fuel + 1, separator, bytes =>
    if bytes.head? = some closeBrace then some ([], bytes.tail)
    else do
      let bytes ← expect (separator ++ [quote]) bytes
      let (key, bytes) ← readString bytes
      let bytes ← expect [colon] bytes
      let (value, bytes) ← readValue fuel bytes
      let (members, bytes) ← readMembers fuel [comma] bytes
      some ((key, value) :: members, bytes)

end

/-- Read a text that is a value and nothing else. -/
def parse (bytes : List UInt8) : Option Json :=
  match readValue bytes.length bytes with
  | some (value, []) => some value
  | _ => none

/-! ### What is written is read -/

theorem render_length_pos (value : Json) : 0 < value.render.length := by
  obtain ⟨byte, rest, text, _⟩ := render_kind value
  rw [text]
  exact Nat.succ_pos _

theorem renderItems_length_pos (separator : List UInt8) (items : List Json) :
    0 < (renderItems separator items).length := by
  cases items with
  | nil => exact Nat.succ_pos 0
  | cons item items =>
    rw [renderItems, List.length_append, List.length_append]
    exact Nat.add_pos_right _ (Nat.add_pos_left (render_length_pos item) _)

theorem renderMembers_length_pos (separator : List UInt8) (members : List (Quoted × Json)) :
    0 < (renderMembers separator members).length := by
  cases members with
  | nil => exact Nat.succ_pos 0
  | cons member members =>
    rw [renderMembers, List.length_append, List.length_append]
    exact Nat.add_pos_right _ (Nat.add_pos_right _ (Nat.succ_pos _))

theorem head_ne_of_ne_cons {bytes : List UInt8} {byte : UInt8}
    (other : ∀ rest, bytes ≠ byte :: rest) : bytes.head? ≠ some byte := by
  intro same
  exact other bytes.tail (List.eq_cons_of_mem_head? same)

theorem exists_fuel (value : Json) {fuel : Nat} (enough : value.render.length ≤ fuel) :
    ∃ left, fuel = left + 1 :=
  Nat.exists_eq_succ_of_ne_zero (Nat.ne_zero_of_lt ((render_length_pos value).trans_le enough))

mutual

/-- A value is read back, with enough fuel and an end behind it. -/
theorem readValue_render : ∀ (value : Json) {fuel : Nat} {rest : List UInt8},
    value.render.length ≤ fuel → Ends rest →
      readValue fuel (value.render ++ rest) = some (value, rest)
  | .bare token, fuel, rest, enough, ends => by
    obtain ⟨left, rfl⟩ := exists_fuel _ enough
    obtain ⟨byte, behind, text, kind⟩ := render_kind (.bare token)
    have read : readBare (byte :: (behind ++ rest)) = some (token, rest) := by
      rw [← List.cons_append, ← text, render, readBare_append token ends]
    rw [text, List.cons_append, readValue, kind]
    exact congrArg (Option.map _) read
  | .string token, fuel, rest, enough, ends => by
    obtain ⟨left, rfl⟩ := exists_fuel _ enough
    rw [render, Quoted.text, List.cons_append, List.append_assoc, readValue,
      show kindOf quote = some .string from rfl]
    exact congrArg (Option.map _) (readString_append token rest)
  | .array items, fuel, rest, enough, ends => by
    obtain ⟨left, rfl⟩ := exists_fuel _ enough
    rw [render] at enough
    rw [render, List.cons_append, readValue, show kindOf openBracket = some .array from rfl]
    exact congrArg (Option.map _)
      (readItems_render items List.mem_cons_self (Nat.le_of_succ_le_succ enough))
  | .object members, fuel, rest, enough, ends => by
    obtain ⟨left, rfl⟩ := exists_fuel _ enough
    rw [render] at enough
    rw [render, List.cons_append, readValue, show kindOf openBrace = some .object from rfl]
    exact congrArg (Option.map _)
      (readMembers_render members List.mem_cons_self (Nat.le_of_succ_le_succ enough))

/-- What is left of an array is read back. -/
theorem readItems_render : ∀ (items : List Json) {separator : List UInt8} {fuel : Nat}
    {rest : List UInt8}, separator ∈ [[], [comma]] →
      (renderItems separator items).length ≤ fuel →
      readItems fuel separator (renderItems separator items ++ rest) = some (items, rest)
  | [], separator, 0, rest, separates, enough => absurd enough (by simp [renderItems])
  | [], separator, fuel + 1, rest, separates, enough => by
    rw [renderItems, readItems]
    exact if_pos rfl
  | item :: items, separator, 0, rest, separates, enough =>
    absurd enough (Nat.not_le_of_lt (renderItems_length_pos _ _))
  | item :: items, separator, fuel + 1, rest, separates, enough => by
    have notClosed := head_ne_of_ne_cons (renderItems_ne_close separates item items rest)
    have itemLength := render_length_pos item
    have restLength := renderItems_length_pos [comma] items
    rw [readItems, if_neg notClosed]
    rw [renderItems] at enough ⊢
    rw [List.length_append, List.length_append] at enough
    have readItem : readValue fuel (item.render ++ (renderItems [comma] items ++ rest)) =
        some (item, renderItems [comma] items ++ rest) :=
      readValue_render item (by omega) (ends_renderItems items rest)
    have readRest : readItems fuel [comma] (renderItems [comma] items ++ rest) =
        some (items, rest) := readItems_render items (by simp) (by omega)
    simp only [List.append_assoc, expect_append, Option.bind_eq_bind, Option.bind_some, readItem,
      readRest]

/-- What is left of an object is read back. -/
theorem readMembers_render : ∀ (members : List (Quoted × Json)) {separator : List UInt8}
    {fuel : Nat} {rest : List UInt8}, separator ∈ [[], [comma]] →
      (renderMembers separator members).length ≤ fuel →
      readMembers fuel separator (renderMembers separator members ++ rest) = some (members, rest)
  | [], separator, 0, rest, separates, enough => absurd enough (by simp [renderMembers])
  | [], separator, fuel + 1, rest, separates, enough => by
    rw [renderMembers, readMembers]
    exact if_pos rfl
  | member :: members, separator, 0, rest, separates, enough =>
    absurd enough (Nat.not_le_of_lt (renderMembers_length_pos _ _))
  | (key, value) :: members, separator, fuel + 1, rest, separates, enough => by
    have notClosed := head_ne_of_ne_cons
      (renderMembers_ne_close separates (key, value) members rest)
    have valueLength := render_length_pos value
    have restLength := renderMembers_length_pos [comma] members
    have text : renderMembers separator ((key, value) :: members) ++ rest =
        (separator ++ [quote]) ++ (key.body ++ quote :: ([colon] ++ (value.render ++
          (renderMembers [comma] members ++ rest)))) := by
      simp [renderMembers, Quoted.text]
    have length : value.render.length ≤ fuel ∧
        (renderMembers [comma] members).length ≤ fuel := by
      simp only [renderMembers, List.length_append, List.length_cons] at enough
      omega
    have readHere := readValue_render value length.1 (ends_renderMembers members rest)
    have readRest : readMembers fuel [comma] (renderMembers [comma] members ++ rest) =
        some (members, rest) := readMembers_render members (by simp) length.2
    rw [readMembers, if_neg notClosed, text]
    simp only [expect_append, readString_append, Option.bind_eq_bind, Option.bind_some, readHere,
      readRest]

end

/-- Two values with an end behind each: equal texts begin with the same value. -/
theorem render_append_inj (left right : Json) {before after : List UInt8} (endsLeft : Ends before)
    (endsRight : Ends after) (same : left.render ++ before = right.render ++ after) :
    left = right ∧ before = after := by
  have first := readValue_render left
    (Nat.le_max_left left.render.length right.render.length) endsLeft
  rw [same] at first
  have second := readValue_render right
    (Nat.le_max_right left.render.length right.render.length) endsRight
  exact Prod.mk.inj (Option.some.inj (first.symm.trans second))

theorem parse_render (value : Json) : parse value.render = some value := by
  have read := readValue_render value (le_refl value.render.length) ends_nil
  rw [List.append_nil] at read
  rw [parse, read]

end Json
