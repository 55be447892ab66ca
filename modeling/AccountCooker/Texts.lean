/-
This file writes the records and the checkpoints of a run directory as JSON, and
reads them back. A codec pairs a writer with its reader and carries the law that
what is written is read, on one line; numbers, lists and the fields of a struct
each have one, and the texts of the directory are put together from these.
-/

import Mathlib
import AccountCooker.Commitment
import AccountCooker.Identity

namespace AccountCooker

open Collections

/-! ### Codecs -/

/-- The byte of a line break. -/
def lineBreak : UInt8 := 10

/-- A way to write values as JSON, and to read them back. -/
structure Codec (Value : Type) where
  write : Value → Json
  read : Json → Option Value
  read_write : ∀ value, read (write value) = some value
  oneLine : ∀ value, lineBreak ∉ (write value).render

theorem lineBreak_not_mem_bare (token : Json.Bare) : lineBreak ∉ token.text :=
  fun member => absurd (token.bare lineBreak member) (by decide)

/-! ### Numbers -/

/-- The letters of a token. -/
def lettersOf (bytes : Bytes) : List Char := bytes.map fun byte => Char.ofNat byte.toNat

theorem lettersOf_plain {letters : List Char} (plain : ∀ letter ∈ letters, Plain letter) :
    lettersOf (letters.map Char.toUInt8) = letters := by
  rw [lettersOf, List.map_map]
  refine (List.map_congr_left fun letter member => ?_).trans (List.map_id letters)
  have byte : letter.toUInt8.toNat = letter.toNat :=
    Nat.mod_eq_of_lt ((plain letter member).1.trans (by decide))
  show Char.ofNat letter.toUInt8.toNat = letter
  rw [byte, Char.ofNat_toNat]

/-- Read digits. -/
def readDigits (letters : List Char) : Option Nat :=
  if letters ≠ [] ∧ letters.all Char.isDigit then some (Nat.ofDigitChars 10 letters 0) else none

theorem readDigits_toDigits (value : Nat) : readDigits (Nat.toDigits 10 value) = some value := by
  have digits : (Nat.toDigits 10 value).all Char.isDigit = true :=
    List.all_eq_true.mpr fun _ member =>
      Nat.isDigit_of_mem_toDigits (by decide) (by decide) member
  rw [readDigits, if_pos ⟨Nat.toDigits_ne_nil, digits⟩, Nat.ofDigitChars_ten_toDigits]

def readNat : Json → Option Nat
  | .bare token => readDigits (lettersOf token.text)
  | _ => none

def readInt : Json → Option Int
  | .bare token =>
    match lettersOf token.text with
    | '-' :: letters => (readDigits letters).map fun (value : Nat) => -(value : Int)
    | letters => (readDigits letters).map Int.ofNat
  | _ => none

theorem readNat_ofNat (value : Nat) : readNat (plainTokens.ofNat value) = some value := by
  show readDigits (lettersOf ((Nat.toDigits 10 value).map Char.toUInt8)) = some value
  rw [lettersOf_plain (plain_digits value), readDigits_toDigits]

theorem readInt_ofInt (value : Int) : readInt (plainTokens.ofInt value) = some value := by
  have letters : lettersOf ((intChars value).map Char.toUInt8) = intChars value :=
    lettersOf_plain (intChars_plain value)
  show (match lettersOf ((intChars value).map Char.toUInt8) with
    | '-' :: letters => (readDigits letters).map fun (value : Nat) => -(value : Int)
    | letters => (readDigits letters).map Int.ofNat) = some value
  rw [letters, intChars]
  split_ifs with negative
  · show Option.map (fun (value : Nat) => -(value : Int))
      (readDigits (Nat.toDigits 10 value.natAbs)) = some value
    rw [readDigits_toDigits, Option.map_some]
    exact congrArg some (by omega)
  · have noMinus := minus_not_mem_digits value.natAbs
    cases shape : Nat.toDigits 10 value.natAbs with
    | nil => exact absurd shape Nat.toDigits_ne_nil
    | cons letter rest =>
      have digits := readDigits_toDigits value.natAbs
      rw [shape] at noMinus digits
      split
      · rename_i same
        rw [(List.cons.inj same).1] at noMinus
        exact absurd List.mem_cons_self noMinus
      · rw [digits, Option.map_some]
        exact congrArg some (Int.natAbs_of_nonneg (Int.not_lt.mp negative))

def natCodec : Codec Nat where
  write := plainTokens.ofNat
  read := readNat
  read_write := readNat_ofNat
  oneLine _ := lineBreak_not_mem_bare _

def intCodec : Codec Int where
  write := plainTokens.ofInt
  read := readInt
  read_write := readInt_ofInt
  oneLine _ := lineBreak_not_mem_bare _

def readBool : Json → Option Bool
  | .bare token =>
    if token.text = [116, 114, 117, 101] then some true
    else if token.text = [102, 97, 108, 115, 101] then some false
    else none
  | _ => none

def boolCodec : Codec Bool where
  write := Json.ofBool
  read := readBool
  read_write value := by cases value <;> rfl
  oneLine _ := lineBreak_not_mem_bare _

/-! ### Values made of others -/

section Combining

variable {Value More : Type}

/-- A codec for values that another type stands for. -/
def Codec.map (codec : Codec Value) (pack : Value → Option More) (unpack : More → Value)
    (inverse : ∀ value, pack (unpack value) = some value) : Codec More where
  write value := codec.write (unpack value)
  read json := (codec.read json).bind pack
  read_write value := by
    rw [codec.read_write]
    exact inverse value
  oneLine value := codec.oneLine (unpack value)

/-- A value that may be missing, where nothing present is written as `null`. -/
def Codec.option (codec : Codec Value)
    (present : ∀ value, (codec.write value).render ≠ Json.null.render) : Codec (Option Value) where
  write
    | none => .null
    | some value => codec.write value
  read json := if json.render = Json.null.render then some none else (codec.read json).map some
  read_write value := by
    cases value with
    | none => exact if_pos rfl
    | some value =>
      dsimp only
      rw [if_neg (present value), codec.read_write]
      rfl
  oneLine value := by
    cases value with
    | none => exact lineBreak_not_mem_bare _
    | some value => exact codec.oneLine value

theorem lineBreak_not_mem_items (items : List Json)
    (oneLine : ∀ item ∈ items, lineBreak ∉ item.render) (separator : Bytes)
    (separates : lineBreak ∉ separator) : lineBreak ∉ Json.renderItems separator items := by
  induction items generalizing separator with
  | nil => exact fun member => absurd (List.mem_singleton.mp member) (by decide)
  | cons item items inductionHypothesis =>
    have rest := inductionHypothesis
      (fun other member => oneLine other (List.mem_cons_of_mem _ member)) [Json.comma] (by decide)
    intro member
    rw [Json.renderItems, List.mem_append, List.mem_append] at member
    rcases member with here | here | here
    · exact separates here
    · exact oneLine item List.mem_cons_self here
    · exact rest here

/-- An array of values. -/
def Codec.list (codec : Codec Value) : Codec (List Value) where
  write values := .array (values.map codec.write)
  read
    | .array items => items.mapM codec.read
    | _ => none
  read_write values := by
    induction values with
    | nil => rfl
    | cons value values inductionHypothesis =>
      dsimp only at inductionHypothesis ⊢
      rw [List.map_cons, List.mapM_cons, codec.read_write, inductionHypothesis]
      rfl
  oneLine values member := by
    rw [Json.render] at member
    rcases List.mem_cons.mp member with bracket | inside
    · exact absurd bracket (by decide)
    · refine lineBreak_not_mem_items _ (fun item written => ?_) [] List.not_mem_nil inside
      obtain ⟨value, _, rfl⟩ := List.mem_map.mp written
      exact codec.oneLine value

/-! ### Structs -/

/-- The fields of a struct, in the order in which they are written. -/
structure Fields (Value : Type) where
  names : List String
  write : Value → List Json
  read : List Json → Option Value
  length : ∀ value, (write value).length = names.length
  read_write : ∀ value, read (write value) = some value
  oneLine : ∀ value, ∀ json ∈ write value, lineBreak ∉ json.render

def Fields.nil : Fields Unit where
  names := []
  write _ := []
  read
    | [] => some ()
    | _ => none
  length _ := rfl
  read_write _ := rfl
  oneLine _ _ member := absurd member List.not_mem_nil

def Fields.cons (name : String) (codec : Codec Value) (rest : Fields More) :
    Fields (Value × More) where
  names := name :: rest.names
  write value := codec.write value.1 :: rest.write value.2
  read
    | [] => none
    | json :: more => do
      let value ← codec.read json
      let others ← rest.read more
      pure (value, others)
  length value := congrArg (· + 1) (rest.length value.2)
  read_write value := by
    dsimp only
    rw [codec.read_write, rest.read_write]
    rfl
  oneLine value json member := by
    rcases List.mem_cons.mp member with rfl | member
    · exact codec.oneLine value.1
    · exact rest.oneLine value.2 json member

/-- The name of a field is on one line. -/
def PlainName (name : String) : Prop := lineBreak ∉ (plainTokens.string name).text

instance (name : String) : Decidable (PlainName name) := inferInstanceAs (Decidable (¬ _))

theorem lineBreak_not_mem_members (members : List (Json.Quoted × Json))
    (oneLine : ∀ member ∈ members, lineBreak ∉ member.1.text ∧ lineBreak ∉ member.2.render)
    (separator : Bytes) (separates : lineBreak ∉ separator) :
    lineBreak ∉ Json.renderMembers separator members := by
  induction members generalizing separator with
  | nil => exact fun member => absurd (List.mem_singleton.mp member) (by decide)
  | cons first members inductionHypothesis =>
    have rest := inductionHypothesis
      (fun other member => oneLine other (List.mem_cons_of_mem _ member)) [Json.comma] (by decide)
    obtain ⟨key, value⟩ := oneLine first List.mem_cons_self
    intro member
    rw [Json.renderMembers, List.mem_append, List.mem_append, List.mem_cons, List.mem_append]
      at member
    rcases member with here | here | here | here | here
    · exact separates here
    · exact key here
    · exact absurd here (by decide)
    · exact value here
    · exact rest here

/-- An object with the fields under their names. -/
def Fields.object (fields : Fields Value) (plain : ∀ name ∈ fields.names, PlainName name) :
    Codec Value where
  write value := plainTokens.object (fields.names.zip (fields.write value))
  read
    | .object members =>
      if members.map (·.1.body) = fields.names.map (fun name => (plainTokens.string name).body) then
        fields.read (members.map Prod.snd)
      else none
    | _ => none
  read_write value := by
    have names : (fields.names.zip (fields.write value)).map Prod.fst = fields.names :=
      List.map_fst_zip (fields.length value).ge
    have values : (fields.names.zip (fields.write value)).map Prod.snd = fields.write value :=
      List.map_snd_zip (fields.length value).le
    dsimp only [Tokens.object]
    rw [List.map_map, List.map_map]
    have bodies : (fields.names.zip (fields.write value)).map
        ((·.1.body) ∘ fun field => (plainTokens.string field.1, field.2)) =
          fields.names.map (fun name => (plainTokens.string name).body) := by
      conv_rhs => rw [← names, List.map_map]
      rfl
    have written : (fields.names.zip (fields.write value)).map
        (Prod.snd ∘ fun field => (plainTokens.string field.1, field.2)) = fields.write value :=
      values
    rw [if_pos bodies, written]
    exact fields.read_write value
  oneLine value member := by
    dsimp only [Tokens.object] at member
    rw [Json.render] at member
    rcases List.mem_cons.mp member with brace | inside
    · exact absurd brace (by decide)
    · refine lineBreak_not_mem_members _ (fun field written => ?_) [] List.not_mem_nil inside
      obtain ⟨⟨name, json⟩, paired, rfl⟩ := List.mem_map.mp written
      obtain ⟨named, field⟩ := List.of_mem_zip paired
      exact ⟨plain name named, fields.oneLine value json field⟩

end Combining

/-! ### The values of the run directory -/

def byteCodec : Codec UInt8 :=
  natCodec.map (fun value => if value < 256 then some (UInt8.ofNat value) else none) UInt8.toNat
    fun byte => by rw [if_pos byte.toNat_lt, UInt8.ofNat_toNat]

/-- The bytes of an account, the highest first. -/
def accountBytes (account : AccountId) : Bytes :=
  (List.range 32).reverse.map fun place => UInt8.ofNat (account.bytes.val / 256 ^ place % 256)

/-- The number some bytes spell. -/
def spelled (bytes : Bytes) : Nat := bytes.foldl (fun number byte => number * 256 + byte.toNat) 0

def accountOf (bytes : Bytes) : Option AccountId :=
  if bounded : bytes.length = 32 ∧ spelled bytes < 2 ^ 256 then
    some ⟨⟨spelled bytes, bounded.2⟩⟩
  else none

/-- The digits of a number in base 256 spell its remainder. -/
theorem foldl_places (value count start : Nat) :
    ((List.range count).reverse.map fun place => UInt8.ofNat (value / 256 ^ place % 256)).foldl
      (fun number byte => number * 256 + byte.toNat) start =
        start * 256 ^ count + value % 256 ^ count := by
  induction count generalizing start with
  | zero => simp [Nat.mod_one]
  | succ count inductionHypothesis =>
    have byte : (UInt8.ofNat (value / 256 ^ count % 256)).toNat = value / 256 ^ count % 256 :=
      UInt8.toNat_ofNat_of_lt' (Nat.mod_lt _ (by decide))
    rw [List.range_succ, List.reverse_append, List.reverse_singleton, List.map_append,
      List.foldl_append, List.map_singleton, List.foldl_cons, List.foldl_nil,
      inductionHypothesis, byte, pow_succ, Nat.mod_mul]
    ring

theorem accountOf_accountBytes (account : AccountId) :
    accountOf (accountBytes account) = some account := by
  have number : spelled (accountBytes account) = account.bytes.val := by
    rw [spelled, accountBytes, foldl_places, Nat.zero_mul, Nat.zero_add]
    exact Nat.mod_eq_of_lt account.bytes.isLt
  have length : (accountBytes account).length = 32 := by
    rw [accountBytes, List.length_map, List.length_reverse, List.length_range]
  have bounded : spelled (accountBytes account) < 2 ^ 256 := by
    rw [number]
    exact account.bytes.isLt
  rw [accountOf, dif_pos ⟨length, bounded⟩]
  congr

def accountCodec : Codec AccountId :=
  byteCodec.list.map accountOf accountBytes accountOf_accountBytes

def readKind : Json → Option ActionKind
  | .string token =>
    (String.fromUTF8? (Json.unescape token.body).toByteArray).bind ActionKind.fromKey
  | _ => none

def kindCodec : Codec ActionKind where
  write kind := plainTokens.ofString kind.key
  read := readKind
  read_write kind := by
    show (String.fromUTF8? (Json.unescape
      (Json.escape kind.key.toUTF8.data.toList)).toByteArray).bind ActionKind.fromKey = some kind
    rw [Json.unescape_escape, ← toList_eq]
    show (String.fromUTF8? (utf8 kind.key).toByteArray).bind ActionKind.fromKey = some kind
    rw [fromUTF8_utf8]
    exact ActionKind.fromKey_key kind
  oneLine kind := by cases kind <;> decide +kernel

theorem natCodec_ne_null (value : Nat) : (natCodec.write value).render ≠ Json.null.render := by
  intro same
  have member : (110 : UInt8) ∈ (Nat.toDigits 10 value).map Char.toUInt8 := by
    show (110 : UInt8) ∈ (natCodec.write value).render
    rw [same]
    decide
  obtain ⟨letter, digit, byte⟩ := List.mem_map.mp member
  have plain := plain_digits value letter digit
  have code : letter.toNat = 110 := by
    rw [← Nat.mod_eq_of_lt (plain.1.trans (by decide) : letter.toNat < 256)]
    exact congrArg UInt8.toNat byte
  have isDigit := Nat.isDigit_of_mem_toDigits (by decide) (by decide) digit
  rw [← Char.ofNat_toNat letter, code] at isDigit
  exact absurd isDigit (by decide)

def recordCodec : Codec TxRecord :=
  (Fields.object
    (.cons "sig" natCodec <| .cons "slot" natCodec <| .cons "ts" intCodec <|
      .cons "fee_payer" accountCodec <| .cons "source" accountCodec <|
      .cons "dest" accountCodec <| .cons "amount" natCodec <| .cons "kind" kindCodec <|
      .cons "operator" (natCodec.option natCodec_ne_null) .nil)
    (by decide +kernel)).map
    (fun (sig, slot, ts, feePayer, source, dest, amount, kind, operator, ()) =>
      some ⟨sig, slot, ts, feePayer, source, dest, amount, kind, operator⟩)
    (fun record => (record.sig, record.slot, record.ts, record.feePayer, record.source,
      record.dest, record.amount, record.kind, record.operator, ()))
    fun _ => rfl

def modeCodec : Codec Mode :=
  natCodec.map
    (fun number => if number = 0 then some .naive else if number = 1 then some .cooker else none)
    (fun mode => match mode with
      | .naive => 0
      | .cooker => 1)
    fun mode => by cases mode <;> rfl

def runIdCodec : Codec RunId :=
  (Fields.object
    (.cons "format" natCodec <| .cons "seed" natCodec <| .cons "mode" modeCodec <|
      .cons "num_agents" natCodec <| .cons "duration_secs" intCodec <|
      .cons "start_ts" intCodec <| .cons "num_external" natCodec <|
      .cons "harden_timing" boolCodec <| .cons "inputs_digest" byteCodec.list .nil)
    (by decide +kernel)).map
    (fun (format, seed, mode, numAgents, durationSecs, startTs, numExternal, hardenTiming,
        inputsDigest, ()) =>
      some ⟨format, seed, mode, numAgents, durationSecs, startTs, numExternal, hardenTiming,
        inputsDigest⟩)
    (fun runId => (runId.format, runId.seed, runId.mode, runId.numAgents, runId.durationSecs,
      runId.startTs, runId.numExternal, runId.hardenTiming, runId.inputsDigest, ()))
    fun _ => rfl

def checkpointCodec : Codec Checkpoint :=
  (Fields.object
    (.cons "format" natCodec <| .cons "run_id" runIdCodec <|
      .cons "rng_state" byteCodec.list <| .cons "clock" intCodec <| .cons "slot" natCodec <|
      .cons "sig" natCodec <| .cons "next_at" intCodec.list <|
      .cons "agent_subaccounts" accountCodec.list.list <|
      .cons "agent_mains" accountCodec.list <| .cons "records_emitted" natCodec <|
      .cons "journal_len_bytes" natCodec <| .cons "events" natCodec .nil)
    (by decide +kernel)).map
    (fun (format, runId, rngState, clock, slot, sig, nextAt, agentSubaccounts, agentMains,
        recordsEmitted, journalLenBytes, events, ()) =>
      some ⟨format, runId, rngState, clock, slot, sig, nextAt, agentSubaccounts, agentMains,
        recordsEmitted, journalLenBytes, events⟩)
    (fun cp => (cp.format, cp.runId, cp.rngState, cp.clock, cp.slot, cp.sig, cp.nextAt,
      cp.agentSubaccounts, cp.agentMains, cp.recordsEmitted, cp.journalLenBytes, cp.events, ()))
    fun _ => rfl

/-! ### The texts of the run directory -/

/-- The letters of a text that is all in bytes. -/
def textOf (bytes : Bytes) : String := String.ofList (lettersOf bytes)

theorem toUInt8_letter (byte : UInt8) : (Char.ofNat byte.toNat).toUInt8 = byte := by
  have known : ∀ code < 256, (Char.ofNat code).toUInt8 = UInt8.ofNat code := by decide +kernel
  rw [known byte.toNat byte.toNat_lt, UInt8.ofNat_toNat]

theorem bytes_textOf (bytes : Bytes) : (textOf bytes).toList.map Char.toUInt8 = bytes := by
  rw [textOf, String.toList_ofList, lettersOf, List.map_map]
  exact (List.map_congr_left fun byte _ => toUInt8_letter byte).trans (List.map_id bytes)

/-- Read a whole text. -/
def Codec.parse {Value : Type} (codec : Codec Value) (error : String) (bytes : Bytes) :
    Except String Value :=
  match (Json.parse bytes).bind codec.read with
  | some value => .ok value
  | none => .error error

theorem Codec.parse_render {Value : Type} (codec : Codec Value) (error : String) (value : Value) :
    codec.parse error (codec.write value).render = .ok value := by
  rw [Codec.parse, Json.parse_render, Option.bind_some, codec.read_write]

theorem renderMembers_close (separator : Bytes) (members : List (Json.Quoted × Json)) :
    ∃ front, Json.renderMembers separator members = front ++ [Json.closeBrace] := by
  induction members generalizing separator with
  | nil => exact ⟨[], rfl⟩
  | cons member members inductionHypothesis =>
    obtain ⟨front, rest⟩ := inductionHypothesis [Json.comma]
    obtain ⟨key, value⟩ := member
    refine ⟨separator ++ (key.text ++ Json.colon :: (value.render ++ front)), ?_⟩
    rw [Json.renderMembers, rest]
    simp

/-- A record is an object, whose text ends with the closing brace. -/
theorem record_close (record : TxRecord) :
    ∃ front, (recordCodec.write record).render = front ++ [Json.closeBrace] := by
  have written : ∃ members, recordCodec.write record = .object members := ⟨_, rfl⟩
  obtain ⟨members, written⟩ := written
  obtain ⟨front, rest⟩ := renderMembers_close [] members
  refine ⟨Json.openBrace :: front, ?_⟩
  rw [written, Json.render, rest, List.cons_append]

/-- The texts of the run directory, beside those of the inputs. -/
def directorySerde : Serde where
  recordText record := textOf (recordCodec.write record).render
  parseRecord text :=
    recordCodec.parse "expected value at line 1 column 1" (text.toList.map Char.toUInt8)
  checkpointText cp := (checkpointCodec.write cp).render
  parseCheckpoint := checkpointCodec.parse "EOF while parsing a value at line 1 column 0"
  personasText := plainSerde.personasText
  hardeningText := plainSerde.hardeningText
  fundingText := plainSerde.fundingText
  sha256 := plainSerde.sha256

theorem directorySerde_writes : directorySerde.Writes plainTokens :=
  ⟨plainSerde_writes.personas, plainSerde_writes.hardening, plainSerde_writes.funding⟩

theorem directorySerde_decodes : directorySerde.Decodes where
  record record := by
    show recordCodec.parse _ ((textOf (recordCodec.write record).render).toList.map
      Char.toUInt8) = .ok record
    rw [bytes_textOf]
    exact recordCodec.parse_render _ record
  oneLine record member := by
    refine recordCodec.oneLine record ?_
    rw [← bytes_textOf (recordCodec.write record).render]
    exact List.mem_map_of_mem member
  trimmed record := by
    obtain ⟨front, text⟩ := record_close record
    show trimEnd (textOf (recordCodec.write record).render) =
      textOf (recordCodec.write record).render
    rw [text, trimEnd, textOf, String.toList_ofList, lettersOf, List.map_append,
      List.map_singleton, List.rdropWhile_concat_neg _ _ _ (by decide)]
  checkpoint cp := checkpointCodec.parse_render _ cp

end AccountCooker
