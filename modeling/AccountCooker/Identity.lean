/-
This file shows that the identity of a run pins its inputs. The seed, the mode
and the sizes stand in the identity itself; the personas, the hardening and the
funding stand there as the digest of their texts, which are put one behind the
other with nothing in between. The texts can still be told apart: the first is
an array and the others are objects, and such a text closes itself.

The tokens of numbers and strings are those of the library that writes them.
-/

import Mathlib
import AccountCooker.Durable
import AccountCooker.JsonReader

namespace AccountCooker

open Collections

/-! ### The texts of the inputs -/

/-- The tokens `serde_json` writes for numbers and strings. -/
structure Tokens where
  nat : Nat → Json.Bare
  int : Int → Json.Bare
  float : Float → Json.Bare
  string : String → Json.Quoted

namespace Tokens

variable (tokens : Tokens)

/-- Distinct values have distinct tokens; what is not finite is written as `null`. -/
structure Distinct : Prop where
  nat : Function.Injective tokens.nat
  int : Function.Injective tokens.int
  float : Set.InjOn tokens.float {x | x.isFinite = true}
  string : Function.Injective tokens.string

/-- The value of an integer field. -/
def ofNat (value : Nat) : Json := .bare (tokens.nat value)

def ofInt (value : Int) : Json := .bare (tokens.int value)

def ofFloat (value : Float) : Json := .bare (tokens.float value)

def ofString (value : String) : Json := .string (tokens.string value)

/-- An object with the fields of a struct under their names. -/
def object (fields : List (String × Json)) : Json :=
  .object (fields.map fun field => (tokens.string field.1, field.2))

end Tokens

section Texts

variable (tokens : Tokens)

def CircadianModel.toJson (model : CircadianModel) : Json :=
  tokens.object
    [("hourly_weights", .array (model.hourlyWeights.toList.map tokens.ofFloat)),
      ("actions_per_active_hour", tokens.ofFloat model.actionsPerActiveHour),
      ("jitter", tokens.ofFloat model.jitter)]

def SplitPolicy.toJson (policy : SplitPolicy) : Json :=
  tokens.object
    [("min_parts", tokens.ofNat policy.minParts),
      ("max_parts", tokens.ofNat policy.maxParts),
      ("min_part_lamports", tokens.ofNat policy.minPartLamports)]

def DecoyPolicy.toJson (policy : DecoyPolicy) : Json :=
  tokens.object
    [("decoys_per_real", tokens.ofFloat policy.decoysPerReal),
      ("dust_lamports_max", tokens.ofNat policy.dustLamportsMax)]

def Persona.toJson (persona : Persona) : Json :=
  tokens.object
    [("name", tokens.ofString persona.name),
      ("wealth_tier", tokens.ofString persona.wealthTier),
      ("circadian", persona.circadian.toJson tokens),
      ("split", persona.split.toJson tokens),
      ("decoy", persona.decoy.toJson tokens),
      ("base_amount_lamports", tokens.ofNat persona.baseAmountLamports),
      ("amount_sigma", tokens.ofFloat persona.amountSigma),
      ("num_subaccounts", tokens.ofNat persona.numSubaccounts),
      ("action_weights", tokens.object
        (persona.actionWeights.entries.map fun entry => (entry.1, tokens.ofFloat entry.2)))]

def RebalanceStrategy.toJson : RebalanceStrategy → Json
  | .rotateAccounts => tokens.ofString "rotate-accounts"
  | .directHub => tokens.ofString "direct-hub"

def HardeningConfig.toJson (hardening : HardeningConfig) : Json :=
  tokens.object
    [("intra_gap_mean_secs", tokens.ofFloat hardening.intraGapMeanSecs),
      ("consolidation_prob", tokens.ofFloat hardening.consolidationProb),
      ("sweep_min_sources", tokens.ofNat hardening.sweepMinSources),
      ("sweep_max_sources", tokens.ofNat hardening.sweepMaxSources),
      ("hold_aggregate_rate", Json.ofBool hardening.holdAggregateRate),
      ("rebalance", hardening.rebalance.toJson tokens)]

def FundingPolicy.toJson : FundingPolicy → Json
  | .operatorHub => tokens.ofString "OperatorHub"
  | .dedicatedFunder => tokens.ofString "DedicatedFunder"
  | .sharedRelayers k => tokens.object [("SharedRelayers", tokens.object [("k", tokens.ofNat k)])]

def FundingConfig.toJson (funding : FundingConfig) : Json :=
  tokens.object
    [("policy", funding.policy.toJson tokens),
      ("sticky", Json.ofBool funding.sticky),
      ("lead_min_secs", tokens.ofInt funding.leadMinSecs),
      ("lead_max_secs", tokens.ofInt funding.leadMaxSecs),
      ("topup_min", tokens.ofNat funding.topupMin),
      ("topup_max", tokens.ofNat funding.topupMax)]

/-- The inputs are written as compact JSON. -/
structure Serde.Writes (serde : Serde) : Prop where
  personas : ∀ personas, serde.personasText personas =
    (Json.array (personas.map (Persona.toJson tokens))).render
  hardening : ∀ hardening, serde.hardeningText hardening = (hardening.toJson tokens).render
  funding : ∀ funding, serde.fundingText funding = (funding.toJson tokens).render

end Texts

/-! ### The floats of the inputs -/

def CircadianModel.floats (model : CircadianModel) : List Float :=
  model.actionsPerActiveHour :: model.jitter :: model.hourlyWeights.toList

def Persona.floats (persona : Persona) : List Float :=
  persona.circadian.floats ++ persona.decoy.decoysPerReal :: persona.amountSigma ::
    persona.actionWeights.values

def HardeningConfig.floats (hardening : HardeningConfig) : List Float :=
  [hardening.intraGapMeanSecs, hardening.consolidationProb]

/-- Every float of the inputs is finite; the funding has none. -/
structure FiniteInputs (personas : List Persona) (cfg : SimConfig) : Prop where
  personas : ∀ persona ∈ personas, ∀ x ∈ persona.floats, x.isFinite = true
  hardening : ∀ x ∈ cfg.hardening.floats, x.isFinite = true

/-! ### Equal texts come from equal inputs -/

/-- A function that tells the members of two lists apart tells the lists apart. -/
theorem map_inj_of_mem {Value Image : Type*} {f : Value → Image} {left right : List Value}
    (apart : ∀ x ∈ left, ∀ y ∈ right, f x = f y → x = y) (same : left.map f = right.map f) :
    left = right := by
  induction left generalizing right with
  | nil => exact (List.map_eq_nil_iff.mp same.symm).symm
  | cons x left inductionHypothesis =>
    cases right with
    | nil => exact absurd same (by simp)
    | cons y right =>
      obtain ⟨head, tail⟩ := List.cons.inj same
      rw [apart x List.mem_cons_self y List.mem_cons_self head,
        inductionHypothesis (fun x member y member' =>
          apart x (List.mem_cons_of_mem _ member) y (List.mem_cons_of_mem _ member')) tail]

section Injectivity

variable {tokens : Tokens} (distinct : tokens.Distinct)

include distinct

theorem Tokens.ofNat_inj {left right : Nat} (same : tokens.ofNat left = tokens.ofNat right) :
    left = right := distinct.nat (Json.bare.inj same)

theorem Tokens.ofInt_inj {left right : Int} (same : tokens.ofInt left = tokens.ofInt right) :
    left = right := distinct.int (Json.bare.inj same)

theorem Tokens.ofString_inj {left right : String}
    (same : tokens.ofString left = tokens.ofString right) : left = right :=
  distinct.string (Json.string.inj same)

theorem Tokens.ofFloat_inj {left right : Float} (finiteLeft : left.isFinite = true)
    (finiteRight : right.isFinite = true) (same : tokens.ofFloat left = tokens.ofFloat right) :
    left = right := distinct.float finiteLeft finiteRight (Json.bare.inj same)

/-- Objects with equal texts have the same fields. -/
theorem Tokens.object_inj {left right : List (String × Json)}
    (same : tokens.object left = tokens.object right) : left = right := by
  refine List.map_injective_iff.mpr ?_ (Json.object.inj same)
  rintro ⟨name, value⟩ ⟨other, others⟩ fields
  obtain ⟨names, values⟩ := Prod.mk.inj fields
  exact Prod.ext (distinct.string names) values

theorem CircadianModel.toJson_inj {left right : CircadianModel}
    (finiteLeft : ∀ x ∈ left.floats, x.isFinite = true)
    (finiteRight : ∀ x ∈ right.floats, x.isFinite = true)
    (same : left.toJson tokens = right.toJson tokens) : left = right := by
  have fields := Tokens.object_inj distinct same
  simp only [List.cons.injEq, Prod.mk.injEq, true_and, and_true] at fields
  obtain ⟨weights, actions, jitter⟩ := fields
  have hours : left.hourlyWeights.toList = right.hourlyWeights.toList := by
    refine map_inj_of_mem (fun x member y member' => ?_) (Json.array.inj weights)
    exact tokens.ofFloat_inj distinct
      (finiteLeft x (List.mem_cons_of_mem _ (List.mem_cons_of_mem _ member)))
      (finiteRight y (List.mem_cons_of_mem _ (List.mem_cons_of_mem _ member')))
  cases left
  cases right
  congr
  · exact Vector.toList_inj.mp hours
  · exact tokens.ofFloat_inj distinct (finiteLeft _ (by simp [CircadianModel.floats]))
      (finiteRight _ (by simp [CircadianModel.floats])) actions
  · exact tokens.ofFloat_inj distinct (finiteLeft _ (by simp [CircadianModel.floats]))
      (finiteRight _ (by simp [CircadianModel.floats])) jitter

theorem SplitPolicy.toJson_inj {left right : SplitPolicy}
    (same : left.toJson tokens = right.toJson tokens) : left = right := by
  have fields := Tokens.object_inj distinct same
  simp only [List.cons.injEq, Prod.mk.injEq, true_and, and_true] at fields
  obtain ⟨least, most, part⟩ := fields
  cases left
  cases right
  congr
  · exact tokens.ofNat_inj distinct least
  · exact tokens.ofNat_inj distinct most
  · exact tokens.ofNat_inj distinct part

theorem DecoyPolicy.toJson_inj {left right : DecoyPolicy}
    (finiteLeft : left.decoysPerReal.isFinite = true)
    (finiteRight : right.decoysPerReal.isFinite = true)
    (same : left.toJson tokens = right.toJson tokens) : left = right := by
  have fields := Tokens.object_inj distinct same
  simp only [List.cons.injEq, Prod.mk.injEq, true_and, and_true] at fields
  obtain ⟨decoys, dust⟩ := fields
  cases left
  cases right
  congr
  · exact tokens.ofFloat_inj distinct finiteLeft finiteRight decoys
  · exact tokens.ofNat_inj distinct dust

/-- The weight table is written in the order of its keys. -/
theorem actionWeights_inj {left right : BTreeMap String Float}
    (finiteLeft : ∀ x ∈ left.values, x.isFinite = true)
    (finiteRight : ∀ x ∈ right.values, x.isFinite = true)
    (same : tokens.object (left.entries.map fun entry => (entry.1, tokens.ofFloat entry.2)) =
      tokens.object (right.entries.map fun entry => (entry.1, tokens.ofFloat entry.2))) :
    left = right := by
  have entries : left.entries = right.entries := by
    refine map_inj_of_mem ?_ (Tokens.object_inj distinct same)
    rintro ⟨key, weight⟩ member ⟨other, weight'⟩ member' fields
    obtain ⟨keys, weights⟩ := Prod.mk.inj fields
    have finite := finiteLeft weight (List.mem_map_of_mem member)
    have finite' := finiteRight weight' (List.mem_map_of_mem member')
    exact Prod.ext keys (tokens.ofFloat_inj distinct finite finite' weights)
  cases left
  cases right
  congr

theorem Persona.toJson_inj {left right : Persona}
    (finiteLeft : ∀ x ∈ left.floats, x.isFinite = true)
    (finiteRight : ∀ x ∈ right.floats, x.isFinite = true)
    (same : left.toJson tokens = right.toJson tokens) : left = right := by
  have fields := Tokens.object_inj distinct same
  simp only [List.cons.injEq, Prod.mk.injEq, true_and, and_true] at fields
  obtain ⟨name, tier, circadian, split, decoy, base, sigma, subaccounts, weights⟩ := fields
  simp only [Persona.floats, List.mem_append, List.mem_cons] at finiteLeft finiteRight
  cases left
  cases right
  congr
  · exact tokens.ofString_inj distinct name
  · exact tokens.ofString_inj distinct tier
  · exact CircadianModel.toJson_inj distinct (fun x member => finiteLeft x (Or.inl member))
      (fun x member => finiteRight x (Or.inl member)) circadian
  · exact SplitPolicy.toJson_inj distinct split
  · exact DecoyPolicy.toJson_inj distinct (finiteLeft _ (Or.inr (Or.inl rfl)))
      (finiteRight _ (Or.inr (Or.inl rfl))) decoy
  · exact tokens.ofNat_inj distinct base
  · exact tokens.ofFloat_inj distinct (finiteLeft _ (Or.inr (Or.inr (Or.inl rfl))))
      (finiteRight _ (Or.inr (Or.inr (Or.inl rfl)))) sigma
  · exact tokens.ofNat_inj distinct subaccounts
  · exact actionWeights_inj distinct
      (fun x member => finiteLeft x (Or.inr (Or.inr (Or.inr member))))
      (fun x member => finiteRight x (Or.inr (Or.inr (Or.inr member)))) weights

theorem RebalanceStrategy.toJson_inj {left right : RebalanceStrategy}
    (same : left.toJson tokens = right.toJson tokens) : left = right := by
  cases left <;> cases right
  · rfl
  · exact absurd (tokens.ofString_inj distinct same) (by decide)
  · exact absurd (tokens.ofString_inj distinct same) (by decide)
  · rfl

theorem HardeningConfig.toJson_inj {left right : HardeningConfig}
    (finiteLeft : ∀ x ∈ left.floats, x.isFinite = true)
    (finiteRight : ∀ x ∈ right.floats, x.isFinite = true)
    (same : left.toJson tokens = right.toJson tokens) : left = right := by
  have fields := Tokens.object_inj distinct same
  simp only [List.cons.injEq, Prod.mk.injEq, true_and, and_true] at fields
  obtain ⟨gap, sweeps, least, most, hold, rebalance⟩ := fields
  cases left
  cases right
  congr
  · exact tokens.ofFloat_inj distinct (finiteLeft _ (by simp [HardeningConfig.floats]))
      (finiteRight _ (by simp [HardeningConfig.floats])) gap
  · exact tokens.ofFloat_inj distinct (finiteLeft _ (by simp [HardeningConfig.floats]))
      (finiteRight _ (by simp [HardeningConfig.floats])) sweeps
  · exact tokens.ofNat_inj distinct least
  · exact tokens.ofNat_inj distinct most
  · exact Json.ofBool_injective hold
  · exact RebalanceStrategy.toJson_inj distinct rebalance

theorem FundingPolicy.toJson_inj {left right : FundingPolicy}
    (same : left.toJson tokens = right.toJson tokens) : left = right := by
  cases left with
  | operatorHub =>
    cases right with
    | operatorHub => rfl
    | dedicatedFunder => exact absurd (tokens.ofString_inj distinct same) (by decide)
    | sharedRelayers k => exact nomatch same
  | dedicatedFunder =>
    cases right with
    | operatorHub => exact absurd (tokens.ofString_inj distinct same) (by decide)
    | dedicatedFunder => rfl
    | sharedRelayers k => exact nomatch same
  | sharedRelayers k =>
    cases right with
    | operatorHub => exact nomatch same
    | dedicatedFunder => exact nomatch same
    | sharedRelayers other =>
      have outer := Tokens.object_inj distinct same
      simp only [List.cons.injEq, Prod.mk.injEq, true_and, and_true] at outer
      have inner := Tokens.object_inj distinct outer
      simp only [List.cons.injEq, Prod.mk.injEq, true_and, and_true] at inner
      rw [tokens.ofNat_inj distinct inner]

theorem FundingConfig.toJson_inj {left right : FundingConfig}
    (same : left.toJson tokens = right.toJson tokens) : left = right := by
  have fields := Tokens.object_inj distinct same
  simp only [List.cons.injEq, Prod.mk.injEq, true_and, and_true] at fields
  obtain ⟨policy, sticky, leadMin, leadMax, topupMin, topupMax⟩ := fields
  cases left
  cases right
  congr
  · exact FundingPolicy.toJson_inj distinct policy
  · exact Json.ofBool_injective sticky
  · exact tokens.ofInt_inj distinct leadMin
  · exact tokens.ofInt_inj distinct leadMax
  · exact tokens.ofNat_inj distinct topupMin
  · exact tokens.ofNat_inj distinct topupMax

end Injectivity

/-! ### The inputs of a run -/

section Inputs

variable {tokens : Tokens} {serde : Serde}

/-- The text of the funding; nothing stands there when it is not set. -/
def fundingText (tokens : Tokens) : Option FundingConfig → Bytes
  | none => []
  | some funding => (funding.toJson tokens).render

theorem inputsText_eq (writes : serde.Writes tokens) (personas : List Persona) (cfg : SimConfig) :
    inputsText serde personas cfg =
      (Json.array (personas.map (Persona.toJson tokens))).render ++
        ((cfg.hardening.toJson tokens).render ++ fundingText tokens cfg.funding) := by
  unfold inputsText
  rw [writes.personas, writes.hardening, List.append_assoc]
  cases cfg.funding with
  | none => rfl
  | some funding =>
    show _ ++ (_ ++ serde.fundingText funding) = _
    rw [writes.funding, fundingText]

theorem ends_fundingText (funding : Option FundingConfig) :
    Json.Ends (fundingText tokens funding) := by
  cases funding with
  | none => exact Json.ends_nil
  | some funding =>
    rw [fundingText, ← List.append_nil (Json.render _)]
    exact Json.ends_object _ _

theorem fundingText_ne_nil (funding : FundingConfig) : fundingText tokens (some funding) ≠ [] := by
  obtain ⟨byte, rest, text, _⟩ := Json.render_kind (funding.toJson tokens)
  rw [fundingText, text]
  exact List.cons_ne_nil _ _

/-- The funding, and whether there is one, is seen from its text. -/
theorem fundingText_inj (distinct : tokens.Distinct) {left right : Option FundingConfig}
    (same : fundingText tokens left = fundingText tokens right) : left = right := by
  cases left with
  | none =>
    cases right with
    | none => rfl
    | some other => exact absurd same.symm (fundingText_ne_nil other)
  | some funding =>
    cases right with
    | none => exact absurd same (fundingText_ne_nil funding)
    | some other =>
      have texts : (funding.toJson tokens).render ++ [] = (other.toJson tokens).render ++ [] := by
        rw [List.append_nil, List.append_nil]
        exact same
      have values := (Json.render_append_inj _ _ Json.ends_nil Json.ends_nil texts).1
      rw [FundingConfig.toJson_inj distinct values]

/-- The inputs that are digested are seen from the text of which the digest is taken. -/
theorem inputsText_inj (distinct : tokens.Distinct) (writes : serde.Writes tokens)
    {personas others : List Persona} {cfg config : SimConfig}
    (finite : FiniteInputs personas cfg) (finite' : FiniteInputs others config)
    (same : inputsText serde personas cfg = inputsText serde others config) :
    personas = others ∧ cfg.hardening = config.hardening ∧ cfg.funding = config.funding := by
  rw [inputsText_eq writes, inputsText_eq writes] at same
  obtain ⟨fleets, behind⟩ := Json.render_append_inj _ _ (Json.ends_object _ _)
    (Json.ends_object _ _) same
  obtain ⟨hardenings, behind⟩ := Json.render_append_inj _ _ (ends_fundingText _)
    (ends_fundingText _) behind
  refine ⟨?_, ?_, fundingText_inj distinct behind⟩
  · refine map_inj_of_mem (fun persona member other member' => ?_) (Json.array.inj fleets)
    exact Persona.toJson_inj distinct (finite.personas persona member)
      (finite'.personas other member')
  · exact HardeningConfig.toJson_inj distinct finite.hardening finite'.hardening hardenings

/-- The identity pins the inputs of a run as far as their texts do, unless the digests of two texts
collide. -/
theorem inputs_of_derive {personas others : List Persona} {cfg config : SimConfig}
    (noCollision : serde.sha256 (inputsText serde personas cfg) =
        serde.sha256 (inputsText serde others config) →
      inputsText serde personas cfg = inputsText serde others config)
    (toldApart : inputsText serde personas cfg = inputsText serde others config →
      personas = others ∧ cfg.hardening = config.hardening ∧ cfg.funding = config.funding)
    (same : RunId.derive serde personas cfg = RunId.derive serde others config) :
    personas = others ∧ cfg = config := by
  simp only [RunId.derive, RunId.mk.injEq, true_and] at same
  obtain ⟨seed, mode, agents, duration, start, externals, timing, digest⟩ := same
  obtain ⟨fleets, hardening, funding⟩ := toldApart (noCollision digest)
  refine ⟨fleets, ?_⟩
  cases cfg
  cases config
  congr

/-- Two runs have the same identity exactly when all their inputs are equal, unless the digests of
their two texts collide. -/
theorem derive_eq_iff (distinct : tokens.Distinct) (writes : serde.Writes tokens)
    {personas others : List Persona} {cfg config : SimConfig}
    (finite : FiniteInputs personas cfg) (finite' : FiniteInputs others config)
    (noCollision : serde.sha256 (inputsText serde personas cfg) =
        serde.sha256 (inputsText serde others config) →
      inputsText serde personas cfg = inputsText serde others config) :
    RunId.derive serde personas cfg = RunId.derive serde others config ↔
      personas = others ∧ cfg = config := by
  constructor
  · exact inputs_of_derive noCollision (inputsText_inj distinct writes finite finite')
  · rintro ⟨rfl, rfl⟩
    rfl

end Inputs

/-! ### The identities of two runs -/

/-- The texts of some floats: the shortest decimals that round to them. -/
def decimalTexts : List (List Char) :=
  ["0.02", "0.03", "0.05", "0.1", "0.15", "0.25", "0.35", "0.4", "0.55", "0.6", "0.7", "0.8",
    "0.85", "0.9", "0.95", "1.0", "2.0", "7.0"].map String.toList

/-- The bits of the floats, with their texts. -/
def decimals : List (UInt64 × List Char) :=
  List.zip
    [0x3f947ae147ae147b, 0x3f9eb851eb851eb8, 0x3fa999999999999a, 0x3fb999999999999a,
    0x3fc3333333333333, 0x3fd0000000000000, 0x3fd6666666666666, 0x3fd999999999999a,
    0x3fe199999999999a, 0x3fe3333333333333, 0x3fe6666666666666, 0x3fe999999999999a,
    0x3feb333333333333, 0x3feccccccccccccd, 0x3fee666666666666, 0x3ff0000000000000,
    0x4000000000000000, 0x401c000000000000] decimalTexts

/-- What is not finite is written as `null`, and a finite float that is not in the list as its bits,
behind what no decimal begins with. -/
def floatChars (x : Float) : List Char :=
  if x.isFinite then (decimals.lookup x.toBits).getD ('1' :: 'e' :: Nat.toDigits 10 x.toBits.toNat)
  else ['n', 'u', 'l', 'l']

def intChars (value : Int) : List Char :=
  if value < 0 then '-' :: Nat.toDigits 10 value.natAbs else Nat.toDigits 10 value.natAbs

/-- A letter that is one byte, and may stand in a bare token. -/
def Plain (letter : Char) : Prop := letter.toNat < 128 ∧ Json.isBare letter.toUInt8 = true

instance (letter : Char) : Decidable (Plain letter) := inferInstanceAs (Decidable (_ ∧ _))

theorem plain_of_isDigit {letter : Char} (digit : letter.isDigit = true) : Plain letter := by
  simp only [Char.isDigit, Bool.and_eq_true, decide_eq_true_eq, ge_iff_le] at digit
  have low : 48 ≤ letter.toNat := UInt32.le_iff_toNat_le.mp digit.1
  have high : letter.toNat ≤ 57 := UInt32.le_iff_toNat_le.mp digit.2
  have known : ∀ code ≤ 57, 48 ≤ code → Plain (Char.ofNat code) := by decide +kernel
  rw [← Char.ofNat_toNat letter]
  exact known letter.toNat high low

theorem plain_digits (value : Nat) : ∀ letter ∈ Nat.toDigits 10 value, Plain letter :=
  fun _ member => plain_of_isDigit (Nat.isDigit_of_mem_toDigits (by decide) (by decide) member)

theorem plain_inj {left right : Char} (plainLeft : Plain left) (plainRight : Plain right)
    (same : left.toUInt8 = right.toUInt8) : left = right := by
  have byte : ∀ letter : Char, Plain letter → letter.toUInt8.toNat = letter.toNat :=
    fun letter plain => Nat.mod_eq_of_lt (plain.1.trans (by decide))
  have codes : left.toNat = right.toNat := by
    rw [← byte left plainLeft, same, byte right plainRight]
  rw [← Char.ofNat_toNat left, codes, Char.ofNat_toNat]

/-- A bare token, by its letters. -/
def bareOf (letters : List Char) (nonempty : letters ≠ [])
    (plain : ∀ letter ∈ letters, Plain letter) : Json.Bare where
  text := letters.map Char.toUInt8
  nonempty := by rwa [ne_eq, List.map_eq_nil_iff]
  bare byte written := by
    obtain ⟨letter, member, rfl⟩ := List.mem_map.mp written
    exact (plain letter member).2

/-- Plain letters are told apart by their bytes, and so are their lists. -/
theorem letters_inj {left right : List Char} (plainLeft : ∀ letter ∈ left, Plain letter)
    (plainRight : ∀ letter ∈ right, Plain letter)
    (same : left.map Char.toUInt8 = right.map Char.toUInt8) : left = right :=
  map_inj_of_mem
    (fun x member y member' => plain_inj (plainLeft x member) (plainRight y member')) same

theorem digits_injective : Function.Injective (Nat.toDigits 10) :=
  fun _ _ same => Nat.repr_injective (congrArg String.ofList same)

theorem intChars_plain (value : Int) : ∀ letter ∈ intChars value, Plain letter := by
  unfold intChars
  split
  · intro letter member
    rcases List.mem_cons.mp member with rfl | member
    · decide
    · exact plain_digits _ letter member
  · exact plain_digits _

theorem intChars_ne_nil (value : Int) : intChars value ≠ [] := by
  unfold intChars
  split
  · exact List.cons_ne_nil _ _
  · exact Nat.toDigits_ne_nil

theorem minus_not_mem_digits (value : Nat) : '-' ∉ Nat.toDigits 10 value :=
  fun member => absurd (Nat.isDigit_of_mem_toDigits (by decide) (by decide) member) (by decide)

theorem intChars_injective : Function.Injective intChars := by
  intro left right same
  unfold intChars at same
  split at same <;> split at same
  · have sizes := digits_injective (List.cons.inj same).2
    omega
  · exact absurd (same ▸ List.mem_cons_self) (minus_not_mem_digits right.natAbs)
  · exact absurd (same ▸ List.mem_cons_self) (minus_not_mem_digits left.natAbs)
  · have sizes := digits_injective same
    omega

theorem decimalTexts_letters : ∀ text ∈ decimalTexts, ∀ letter ∈ text,
    letter.isDigit = true ∨ letter = '.' := by simp [decimalTexts]

theorem decimalTexts_plain {text : List Char} (member : text ∈ decimalTexts) :
    ∀ letter ∈ text, Plain letter := by
  intro letter written
  rcases decimalTexts_letters text member letter written with digit | rfl
  · exact plain_of_isDigit digit
  · decide

theorem decimalTexts_ne_nil : ∀ text ∈ decimalTexts, text ≠ [] := by simp [decimalTexts]

/-- No decimal of the list has an exponent. -/
theorem exponent_not_mem {text : List Char} (member : text ∈ decimalTexts) : 'e' ∉ text :=
  fun written => absurd (decimalTexts_letters text member 'e' written) (by decide)

theorem decimalTexts_nodup : decimalTexts.Nodup := by
  rw [decimalTexts, List.nodup_map_iff (fun _ _ => String.toList_inj.mp)]
  decide +kernel

theorem mem_of_lookup_decimals {bits : UInt64} {text : List Char}
    (found : decimals.lookup bits = some text) : (bits, text) ∈ decimals := by
  obtain ⟨before, after, split, _⟩ := List.lookup_eq_some_iff.mp found
  rw [split]
  exact List.mem_append_right _ List.mem_cons_self

theorem text_of_lookup_decimals {bits : UInt64} {text : List Char}
    (found : decimals.lookup bits = some text) : text ∈ decimalTexts :=
  (List.of_mem_zip (mem_of_lookup_decimals found)).2

theorem lookup_decimals_inj {left right : UInt64} {text : List Char}
    (found : decimals.lookup left = some text) (found' : decimals.lookup right = some text) :
    left = right := by
  have texts : (decimals.map Prod.snd).Nodup := by
    rw [decimals, List.map_snd_zip (by decide)]
    exact decimalTexts_nodup
  exact congrArg Prod.fst (List.inj_on_of_nodup_map texts (mem_of_lookup_decimals found)
    (mem_of_lookup_decimals found') rfl)

theorem floatChars_plain (x : Float) : ∀ letter ∈ floatChars x, Plain letter := by
  unfold floatChars
  split
  · cases found : decimals.lookup x.toBits with
    | some text => exact decimalTexts_plain (text_of_lookup_decimals found)
    | none =>
      intro letter member
      rw [Option.getD_none, List.mem_cons, List.mem_cons] at member
      rcases member with rfl | rfl | member
      · decide
      · decide
      · exact plain_digits _ letter member
  · intro letter member
    simp only [List.mem_cons, List.not_mem_nil, or_false] at member
    rcases member with rfl | rfl | rfl | rfl <;> decide

theorem floatChars_ne_nil (x : Float) : floatChars x ≠ [] := by
  unfold floatChars
  split
  · cases found : decimals.lookup x.toBits with
    | some text => exact decimalTexts_ne_nil text (text_of_lookup_decimals found)
    | none => exact List.cons_ne_nil _ _
  · exact List.cons_ne_nil _ _

theorem toBits_injective : Function.Injective Float.toBits := by
  rintro ⟨⟨left, _⟩⟩ ⟨⟨right, _⟩⟩ same
  obtain rfl : left = right := same
  rfl

theorem floatChars_injOn : Set.InjOn floatChars {x | x.isFinite = true} := by
  intro left finite right finite' same
  refine toBits_injective ?_
  have finiteLeft : left.isFinite = true := finite
  have finiteRight : right.isFinite = true := finite'
  unfold floatChars at same
  rw [if_pos finiteLeft, if_pos finiteRight] at same
  cases found : decimals.lookup left.toBits with
  | some text =>
    have exponent := exponent_not_mem (text_of_lookup_decimals found)
    cases found' : decimals.lookup right.toBits with
    | some other =>
      rw [found, found', Option.getD_some, Option.getD_some] at same
      rw [← same] at found'
      exact lookup_decimals_inj found found'
    | none =>
      rw [found, found', Option.getD_some, Option.getD_none] at same
      rw [same] at exponent
      exact absurd (List.mem_cons_of_mem _ List.mem_cons_self) exponent
  | none =>
    cases found' : decimals.lookup right.toBits with
    | some other =>
      have exponent := exponent_not_mem (text_of_lookup_decimals found')
      rw [found, found', Option.getD_some, Option.getD_none] at same
      rw [← same] at exponent
      exact absurd (List.mem_cons_of_mem _ List.mem_cons_self) exponent
    | none =>
      rw [found, found', Option.getD_none, Option.getD_none] at same
      have numbers := digits_injective (List.cons.inj (List.cons.inj same).2).2
      exact UInt64.toNat_inj.mp numbers

/-- The tokens of the two runs. -/
def plainTokens : Tokens where
  nat value := bareOf (Nat.toDigits 10 value) Nat.toDigits_ne_nil (plain_digits value)
  int value := bareOf (intChars value) (intChars_ne_nil value) (intChars_plain value)
  float x := bareOf (floatChars x) (floatChars_ne_nil x) (floatChars_plain x)
  string text := .ofBytes text.toUTF8.data.toList

theorem plainTokens_distinct : plainTokens.Distinct where
  nat left right same := digits_injective
    (letters_inj (plain_digits left) (plain_digits right) (congrArg Json.Bare.text same))
  int left right same := intChars_injective
    (letters_inj (intChars_plain left) (intChars_plain right) (congrArg Json.Bare.text same))
  float left finiteLeft right finiteRight same := floatChars_injOn finiteLeft finiteRight
    (letters_inj (floatChars_plain left) (floatChars_plain right) (congrArg Json.Bare.text same))
  string left right same := by
    have bytes := Json.escape_injective (congrArg Json.Quoted.body same)
    exact String.toByteArray_inj.mp (ByteArray.ext (Array.toList_inj.mp bytes))

/-- The texts of the default run of retail users. -/
def retailText : String :=
  "[\x7b\"name\":\"retail\",\"wealth_tier\":\"retail\",\"circadian\":\x7b\"hourly_weights\":" ++
  "[0.05,0.03,0.02,0.02,0.03,0.05,0.15,0.35,0.6,0.8,0.9,0.95,0.85,0.9,0.95,0.9,0.85,0.9,1.0," ++
  "1.0,0.95,0.7,0.4,0.15],\"actions_per_active_hour\":2.0,\"jitter\":0.35\x7d,\"split\":" ++
  "\x7b\"min_parts\":2,\"max_parts\":4,\"min_part_lamports\":50000\x7d,\"decoy\":" ++
  "\x7b\"decoys_per_real\":1.0,\"dust_lamports_max\":30000\x7d," ++
  "\"base_amount_lamports\":2000000,\"amount_sigma\":0.7,\"num_subaccounts\":4," ++
  "\"action_weights\":\x7b\"memo\":0.1,\"stake\":0.1,\"swap\":0.25,\"transfer\":0.55\x7d\x7d]" ++
  "\x7b\"intra_gap_mean_secs\":7.0,\"consolidation_prob\":0.03,\"sweep_min_sources\":2," ++
  "\"sweep_max_sources\":3,\"hold_aggregate_rate\":true,\"rebalance\":\"rotate-accounts\"\x7d"

/-- What SHA-256 gives on the texts without a funding, and on the longer ones with it. -/
def retailDigest (text : Bytes) : Bytes :=
  if text = retailText.toUTF8.data.toList then
    [44, 30, 132, 176, 131, 150, 63, 102, 213, 68, 51, 13, 129, 235, 10, 68, 162, 208, 180, 99,
      89, 214, 93, 134, 73, 138, 191, 221, 156, 3, 105, 175]
  else
    [216, 59, 44, 97, 104, 239, 240, 180, 127, 235, 25, 200, 91, 89, 233, 210, 218, 115, 212, 156,
      51, 92, 166, 178, 70, 34, 41, 30, 40, 33, 153, 227]

theorem retailDigest_ne {text other : Bytes} (retail : text = retailText.toUTF8.data.toList)
    (longer : other ≠ retailText.toUTF8.data.toList) : retailDigest text ≠ retailDigest other := by
  unfold retailDigest
  rw [if_pos retail, if_neg longer]
  decide

def plainSerde : Serde where
  recordText _ := ""
  parseRecord _ := .error "expected value at line 1 column 1"
  checkpointText _ := []
  parseCheckpoint _ := .error "EOF while parsing a value at line 1 column 0"
  personasText personas := (Json.array (personas.map (Persona.toJson plainTokens))).render
  hardeningText hardening := (hardening.toJson plainTokens).render
  fundingText funding := (funding.toJson plainTokens).render
  sha256 := retailDigest

theorem plainSerde_sha256 : plainSerde.sha256 = retailDigest := rfl

theorem plainSerde_writes : plainSerde.Writes plainTokens :=
  ⟨fun _ => rfl, fun _ => rfl, fun _ => rfl⟩

def fundedRun : SimConfig := { SimConfig.default with funding := some (.new .operatorHub) }

theorem retailText_eq : inputsText plainSerde [Persona.retail] SimConfig.default =
    retailText.toUTF8.data.toList := by decide +kernel

/-- The funding goes behind the texts of the run without it. -/
theorem fundedText_eq : inputsText plainSerde [Persona.retail] fundedRun =
    inputsText plainSerde [Persona.retail] SimConfig.default ++
      fundingText plainTokens (some (.new .operatorHub)) := by
  rw [inputsText_eq plainSerde_writes, inputsText_eq plainSerde_writes, List.append_assoc,
    List.append_assoc]
  rfl

theorem retail_finite : FiniteInputs [Persona.retail] SimConfig.default :=
  ⟨by decide +kernel, by decide +kernel⟩

theorem funded_finite : FiniteInputs [Persona.retail] fundedRun :=
  ⟨retail_finite.personas, retail_finite.hardening⟩

theorem retailDigest_apart :
    plainSerde.sha256 (inputsText plainSerde [Persona.retail] SimConfig.default) ≠
      plainSerde.sha256 (inputsText plainSerde [Persona.retail] fundedRun) := by
  have longer : inputsText plainSerde [Persona.retail] fundedRun ≠
      retailText.toUTF8.data.toList := by
    rw [fundedText_eq, ← retailText_eq]
    intro same
    exact fundingText_ne_nil _ (List.append_cancel_left (same.trans (List.append_nil _).symm))
  rw [plainSerde_sha256]
  exact retailDigest_ne retailText_eq longer

/-- Setting the funding changes the identity of the run. -/
theorem derive_eq_iff_funded :
    RunId.derive plainSerde [Persona.retail] SimConfig.default ≠
      RunId.derive plainSerde [Persona.retail] fundedRun := by
  intro same
  have inputs := (derive_eq_iff plainTokens_distinct plainSerde_writes retail_finite funded_finite
    (fun collision => absurd collision retailDigest_apart)).mp same
  exact Option.some_ne_none _ (congrArg SimConfig.funding inputs.2).symm

end AccountCooker
