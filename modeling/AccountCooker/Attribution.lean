/-
This file proves what the cross-validation of the learned adversary promises: a
model never trains on an operator it scores, and every owned pair is scored in
one fold set. The folds of a pair are those of its two operators, so a fold set
holds exactly the pairs it scores, and the training set avoids both its folds.

Whether every pair is really scored depends on the number of folds. With two of
them the fold set that holds both leaves nothing to train on, and the pairs
across the folds keep the score they started with; with more there is always a
third fold or two operators in it.
-/

import Mathlib
import AccountCooker.FeePayers
import AccountCooker.Learning

namespace AccountCooker

open Collections

/-! ### Owned pairs -/

/-- An operator owns an endpoint of a pair. -/
def Pair.OwnedBy (ledger : Ledger) (pair : Pair) (operator : AgentId) : Prop :=
  ledger.ownership.lookup pair.a = some operator ∨ ledger.ownership.lookup pair.b = some operator

theorem mem_operatorsOf {ledger : Ledger} {operator : AgentId} :
    operator ∈ operatorsOf ledger ↔
      ∃ account, ledger.ownership.lookup account = some operator := by
  unfold operatorsOf
  rw [BTreeMap.mem_setOf, List.mem_map]
  constructor
  · rintro ⟨⟨account, owner⟩, member, rfl⟩
    exact ⟨account, AList.mem_lookup_iff.mpr member⟩
  · rintro ⟨account, owned⟩
    exact ⟨⟨account, operator⟩, AList.mem_lookup_iff.mp owned, rfl⟩

theorem mem_ownedAccounts {ledger : Ledger} {account : AccountId} :
    account ∈ ownedAccounts ledger ↔
      ∃ operator, ledger.ownership.lookup account = some operator := by
  unfold ownedAccounts
  rw [BTreeMap.mem_setOf, ← AList.mem_keys, ← AList.lookup_isSome, Option.isSome_iff_exists]

theorem ownedAccounts_sorted (ledger : Ledger) : (ownedAccounts ledger).Pairwise (· < ·) :=
  BTreeMap.keys_sorted _

/-- The operators behind a pair, and its label and folds from them. -/
structure Pair.Drawn (ledger : Ledger) (k : Nat) (pair : Pair) (oa ob : AgentId) : Prop where
  ordered : pair.a < pair.b
  ownsA : ledger.ownership.lookup pair.a = some oa
  ownsB : ledger.ownership.lookup pair.b = some ob
  label : pair.y = decide (oa = ob)
  foldA : foldOf ledger k oa = some pair.fa
  foldB : foldOf ledger k ob = some pair.fb

theorem foldOf_lt {ledger : Ledger} {k : Nat} {operator : AgentId} {fold : Nat}
    (positive : 0 < k) (folded : foldOf ledger k operator = some fold) : fold < k := by
  unfold foldOf at folded
  obtain ⟨index, _, rfl⟩ := Option.map_eq_some_iff.mp folded
  exact Nat.mod_lt index positive

theorem foldsUsed_pos (ledger : Ledger) (cfg : MlConfig) : 0 < foldsUsed ledger cfg :=
  lt_of_lt_of_le Nat.one_pos (le_max_right _ _)

section Pairs

variable [Libm] {order : HashOrder} {ledger : Ledger} {cfg : MlConfig} {pairs : List Pair}

theorem pairOf_drawn {k : Nat} {feats : Features} {accounts : AccountId × AccountId} {pair : Pair}
    (ordered : accounts.1 < accounts.2)
    (computed : pairOf ledger k feats accounts = some pair) :
    pair.a = accounts.1 ∧ pair.b = accounts.2 ∧ ∃ oa ob, pair.Drawn ledger k oa ob := by
  simp only [pairOf, Option.bind_eq_bind, Option.bind_eq_some_iff] at computed
  obtain ⟨oa, ownsA, ob, ownsB, x, _, fa, foldA, fb, foldB, equal⟩ := computed
  obtain rfl := Option.some.inj equal
  exact ⟨rfl, rfl, oa, ob, ordered, ownsA, ownsB, rfl, foldA, foldB⟩

/-- Every listed pair is drawn from two operators. -/
theorem ownedPairs_drawn (listed : ownedPairs order ledger cfg = some pairs) {pair : Pair}
    (member : pair ∈ pairs) : ∃ oa ob, pair.Drawn ledger (foldsUsed ledger cfg) oa ob := by
  simp only [ownedPairs, Option.bind_eq_bind, Option.bind_eq_some_iff] at listed
  obtain ⟨feats, _, computed⟩ := listed
  have each := forall₂_mapM computed
  obtain ⟨accounts, inAccounts, found⟩ := forall₂_exists_left each _ member
  have ordered := ((mem_orderedPairs (ownedAccounts_sorted ledger) _ _).mp inAccounts).2.2
  exact (pairOf_drawn ordered found).2.2

/-- Every two owned accounts are a listed pair. -/
theorem ownedPairs_complete (listed : ownedPairs order ledger cfg = some pairs)
    {first second : AccountId} {oa ob : AgentId} (ordered : first < second)
    (ownsA : ledger.ownership.lookup first = some oa)
    (ownsB : ledger.ownership.lookup second = some ob) :
    ∃ pair ∈ pairs, pair.a = first ∧ pair.b = second := by
  simp only [ownedPairs, Option.bind_eq_bind, Option.bind_eq_some_iff] at listed
  obtain ⟨feats, _, computed⟩ := listed
  have each := forall₂_mapM computed
  have inAccounts := (mem_orderedPairs (ownedAccounts_sorted ledger) first second).mpr
    ⟨mem_ownedAccounts.mpr ⟨oa, ownsA⟩, mem_ownedAccounts.mpr ⟨ob, ownsB⟩, ordered⟩
  obtain ⟨pair, member, found⟩ := forall₂_exists_right each _ inAccounts
  have drawn := pairOf_drawn ordered found
  exact ⟨pair, member, drawn.1, drawn.2.1⟩

end Pairs

/-! ### Fold sets -/

theorem mem_foldSets {k : Nat} {folds : Nat × Nat} :
    folds ∈ foldSets k ↔ folds.1 ≤ folds.2 ∧ folds.2 < k := by
  unfold foldSets
  simp only [List.mem_flatMap, List.mem_range, List.mem_map, List.mem_range'_1]
  constructor
  · rintro ⟨fi, inner, fj, ⟨above, below⟩, rfl⟩
    exact ⟨above, by omega⟩
  · rintro ⟨above, below⟩
    exact ⟨folds.1, by omega, folds.2, ⟨above, by omega⟩, rfl⟩

theorem mem_trainSet {pairs : List Pair} {folds : Nat × Nat} {entry : Pair × Nat} :
    entry ∈ trainSet pairs folds ↔ entry ∈ pairs.zipIdx ∧
      (entry.1.fa ≠ folds.1 ∧ entry.1.fa ≠ folds.2) ∧
        entry.1.fb ≠ folds.1 ∧ entry.1.fb ≠ folds.2 := by
  unfold trainSet
  rw [List.mem_filter]
  simp only [Bool.and_eq_true, decide_eq_true_eq, and_assoc]

theorem mem_testSet {pairs : List Pair} {folds : Nat × Nat} {entry : Pair × Nat} :
    entry ∈ testSet pairs folds ↔ entry ∈ pairs.zipIdx ∧
      (entry.1.fa = folds.1 ∧ entry.1.fb = folds.2 ∨
        entry.1.fa = folds.2 ∧ entry.1.fb = folds.1) := by
  unfold testSet
  rw [List.mem_filter]
  simp only [Bool.or_eq_true, Bool.and_eq_true, decide_eq_true_eq]

/-- The fold set of a pair. -/
def Pair.folds (pair : Pair) : Nat × Nat := (min pair.fa pair.fb, max pair.fa pair.fb)

/-- A pair is scored in its own fold set and in no other. -/
theorem mem_testSet_iff {pairs : List Pair} {k : Nat} {folds : Nat × Nat} {entry : Pair × Nat}
    (inner : folds ∈ foldSets k) :
    entry ∈ testSet pairs folds ↔ entry ∈ pairs.zipIdx ∧ folds = entry.1.folds := by
  have ordered := (mem_foldSets.mp inner).1
  rw [mem_testSet]
  refine and_congr_right (fun _ => ?_)
  unfold Pair.folds
  rw [Prod.ext_iff]
  omega

/-- No operator owns an endpoint of a pair that is trained on and of a pair that is scored. -/
theorem held_out {ledger : Ledger} {k : Nat} {pairs : List Pair} {folds : Nat × Nat}
    (drawn : ∀ pair ∈ pairs, ∃ oa ob, pair.Drawn ledger k oa ob) {trained scored : Pair × Nat}
    (inTrain : trained ∈ trainSet pairs folds) (inTest : scored ∈ testSet pairs folds)
    (operator : AgentId) :
    ¬(trained.1.OwnedBy ledger operator ∧ scored.1.OwnedBy ledger operator) := by
  obtain ⟨trainedIn, apartA, apartB⟩ := mem_trainSet.mp inTrain
  obtain ⟨scoredIn, held⟩ := mem_testSet.mp inTest
  have foldOfOwner {entry : Pair × Nat} (member : entry ∈ pairs.zipIdx)
      (owned : entry.1.OwnedBy ledger operator) :
      foldOf ledger k operator = some entry.1.fa ∨ foldOf ledger k operator = some entry.1.fb := by
    obtain ⟨oa, ob, facts⟩ := drawn entry.1 (List.fst_mem_of_mem_zipIdx member)
    rcases owned with ownsA | ownsB
    · obtain rfl := Option.some.inj (facts.ownsA.symm.trans ownsA)
      exact Or.inl facts.foldA
    · obtain rfl := Option.some.inj (facts.ownsB.symm.trans ownsB)
      exact Or.inr facts.foldB
  rintro ⟨ownsTrained, ownsScored⟩
  have outside (fold : Nat) (folded : foldOf ledger k operator = some fold) :
      fold ≠ folds.1 ∧ fold ≠ folds.2 := by
    rcases foldOfOwner trainedIn ownsTrained with here | here
    · rw [folded] at here
      exact Option.some.inj here ▸ apartA
    · rw [folded] at here
      exact Option.some.inj here ▸ apartB
  rcases foldOfOwner scoredIn ownsScored with here | here
  · have apart := outside _ here
    rcases held with ⟨equal, _⟩ | ⟨equal, _⟩
    · exact apart.1 equal
    · exact apart.2 equal
  · have apart := outside _ here
    rcases held with ⟨_, equal⟩ | ⟨_, equal⟩
    · exact apart.2 equal
    · exact apart.1 equal

/-- The folds of a listed pair are a fold set. -/
theorem folds_mem_foldSets {ledger : Ledger} {cfg : MlConfig} {pair : Pair} {oa ob : AgentId}
    (drawn : pair.Drawn ledger (foldsUsed ledger cfg) oa ob) :
    pair.folds ∈ foldSets (foldsUsed ledger cfg) := by
  have belowA := foldOf_lt (foldsUsed_pos ledger cfg) drawn.foldA
  have belowB := foldOf_lt (foldsUsed_pos ledger cfg) drawn.foldB
  exact mem_foldSets.mpr ⟨min_le_max, max_lt belowA belowB⟩

/-- Cross-validation never trains on a held-out operator: in no fold set does one operator own an
endpoint of a pair that is trained on and of a pair that is scored. Every two owned accounts are
a listed pair, and every listed pair is scored in exactly one fold set. -/
theorem operator_disjoint [Libm] (order : HashOrder) (ledger : Ledger) (cfg : MlConfig)
    (pairs : List Pair) (listed : ownedPairs order ledger cfg = some pairs) :
    (∀ folds ∈ foldSets (foldsUsed ledger cfg), ∀ trained ∈ trainSet pairs folds,
      ∀ scored ∈ testSet pairs folds, ∀ operator,
        ¬(trained.1.OwnedBy ledger operator ∧ scored.1.OwnedBy ledger operator)) ∧
    (∀ first second oa ob, first < second → ledger.ownership.lookup first = some oa →
      ledger.ownership.lookup second = some ob →
        ∃ pair ∈ pairs, pair.a = first ∧ pair.b = second) ∧
    ∀ entry ∈ pairs.zipIdx, ∃! folds, folds ∈ foldSets (foldsUsed ledger cfg) ∧
      entry ∈ testSet pairs folds := by
  have drawn (pair : Pair) (member : pair ∈ pairs) := ownedPairs_drawn listed member
  refine ⟨fun folds _ trained inTrain scored inTest operator =>
    held_out drawn inTrain inTest operator,
    fun first second oa ob ordered ownsA ownsB => ownedPairs_complete listed ordered ownsA ownsB,
    fun entry member => ?_⟩
  obtain ⟨oa, ob, facts⟩ := drawn entry.1 (List.fst_mem_of_mem_zipIdx member)
  have inner := folds_mem_foldSets facts
  refine ⟨entry.1.folds, ⟨inner, (mem_testSet_iff inner).mpr ⟨member, rfl⟩⟩, ?_⟩
  rintro folds ⟨innerToo, inTest⟩
  exact ((mem_testSet_iff innerToo).mp inTest).2

/-- A lonely record: its signer pays its own fee, and shares nothing but the payee. -/
def lonelyRecord (account : Fin 256) (operator : AgentId) : TxRecord where
  sig := account.val
  slot := account.val
  ts := account.val * 1000
  feePayer := ⟨⟨account.val, by omega⟩⟩
  source := ⟨⟨account.val, by omega⟩⟩
  dest := ⟨⟨255, by omega⟩⟩
  amount := 1
  kind := .transfer
  operator := some operator

/-- Six operators: the last five sign from one account each, the first from all others. -/
def unevenFleet (accounts : Nat) : Ledger :=
  ⟨(List.range accounts).map (fun i => lonelyRecord (Fin.ofNat 256 i) (i - (accounts - 6)))⟩

/-- The elementary functions at the two arguments the uneven fleet leads to. -/
abbrev unevenLibm : Libm where
  ln x := if x == 1.0 then 0.0 else nan
  exp x := if x == 0.0 then 1.0 else nan

/-- The standard configuration without a descent, in some number of folds. -/
def unfitted (folds : Nat) : MlConfig := { MlConfig.standard with folds := folds, iters := 0 }

/-- The pairs of an uneven fleet under three folds. -/
theorem operator_disjoint_unevenFleet : ∃ pairs,
    @ownedPairs unevenLibm HashOrder.asWritten (unevenFleet 12) (unfitted 3) = some pairs ∧
    pairs.length = 66 ∧
    ∀ entry ∈ pairs.zipIdx, ∃! folds,
      folds ∈ foldSets (foldsUsed (unevenFleet 12) (unfitted 3)) ∧
        entry ∈ testSet pairs folds := by
  have listed : (@ownedPairs unevenLibm HashOrder.asWritten (unevenFleet 12) (unfitted 3)).map
      List.length = some 66 := by decide +kernel
  obtain ⟨pairs, computed, length⟩ := Option.map_eq_some_iff.mp listed
  have disjoint := @operator_disjoint unevenLibm _ _ _ pairs computed
  exact ⟨pairs, computed, length, disjoint.2.2⟩

/-! ### Scores -/

section Scoring

variable [Libm] {ledger : Ledger} {cfg : MlConfig} {pairs : List Pair} {entry : Pair × Nat}

/-- The score of a pair came from a model that was fitted on some pairs, none of which shares an
operator with it. -/
def HeldOut (ledger : Ledger) (cfg : MlConfig) (pairs : List Pair) (scores : Scores)
    (entry : Pair × Nat) : Prop :=
  ∃ folds ∈ foldSets (foldsUsed ledger cfg), ∃ model,
    entry ∈ testSet pairs folds ∧ trainSet pairs folds ≠ [] ∧
    fitFoldSet cfg pairs folds = some model ∧
    scores.proba[entry.2]? = some (model.predictProba entry.1.x) ∧
    ∀ trained ∈ trainSet pairs folds, ∀ operator,
      ¬(trained.1.OwnedBy ledger operator ∧ entry.1.OwnedBy ledger operator)

/-- A fold set writes the scores of its own pairs only, if there is something to train on. -/
theorem scoreFoldSet_cases {scores next : Scores} {folds : Nat × Nat}
    (member : entry ∈ pairs.zipIdx) (full : scores.proba.length = pairs.length)
    (scored : scoreFoldSet cfg pairs scores folds = some next) :
    next.proba.length = pairs.length ∧
    (entry ∈ testSet pairs folds → trainSet pairs folds ≠ [] →
      ∃ model, fitFoldSet cfg pairs folds = some model ∧
        next.proba[entry.2]? = some (model.predictProba entry.1.x)) ∧
    (entry ∉ testSet pairs folds ∨ trainSet pairs folds = [] →
      next.proba[entry.2]? = scores.proba[entry.2]?) := by
  unfold scoreFoldSet at scored
  by_cases untested : (testSet pairs folds).isEmpty = true
  · rw [if_pos untested] at scored
    obtain rfl := Option.some.inj scored
    have nothing := List.isEmpty_iff.mp untested
    refine ⟨full, fun inTest => ?_, fun _ => rfl⟩
    rw [nothing] at inTest
    exact absurd inTest List.not_mem_nil
  · rw [if_neg untested] at scored
    by_cases untrained : (trainSet pairs folds).isEmpty = true
    · rw [if_pos untrained] at scored
      obtain rfl := Option.some.inj scored
      exact ⟨full, fun _ some => absurd (List.isEmpty_iff.mp untrained) some, fun _ => rfl⟩
    · rw [if_neg untrained] at scored
      simp only [Option.bind_eq_bind, Option.bind_eq_some_iff] at scored
      obtain ⟨model, fitted, equal⟩ := scored
      obtain rfl := Option.some.inj equal
      have atEntry := List.mem_zipIdx_iff_getElem?.mp member
      have bound : entry.2 < scores.proba.length := by
        rw [full]
        exact (List.getElem?_eq_some_iff.mp atEntry).1
      let value (pair : Pair) := model.predictProba pair.x
      refine ⟨(length_foldl_set value _ _).trans full, fun inTest _ => ⟨model, fitted, ?_⟩,
        fun outside => ?_⟩
      · refine foldl_set_inside value bound inTest ?_
        intro other inTestToo
        have also := List.mem_zipIdx_iff_getElem?.mp (mem_testSet.mp inTestToo).1
        exact Option.some.inj (also.symm.trans atEntry)
      · refine foldl_set_outside value (fun other inTest => ?_)
        have also := List.mem_zipIdx_iff_getElem?.mp (mem_testSet.mp inTest).1
        obtain rfl : other = entry.1 := Option.some.inj (also.symm.trans atEntry)
        rcases outside with absent | nothing
        · exact absent inTest
        · exact absurd nothing (fun empty => untrained (List.isEmpty_iff.mpr empty))

/-- The fold sets write the score of a pair in its own fold set, if there is something to train
on there, and nowhere else. -/
theorem scoreFoldSets_cases {sets : List (Nat × Nat)} {scores last : Scores}
    (member : entry ∈ pairs.zipIdx) (full : scores.proba.length = pairs.length)
    (scored : sets.foldlM (scoreFoldSet cfg pairs) scores = some last) :
    (∀ folds ∈ sets, entry ∈ testSet pairs folds → trainSet pairs folds ≠ [] →
      (∀ other ∈ sets, entry ∈ testSet pairs other → other = folds) →
        ∃ model, fitFoldSet cfg pairs folds = some model ∧
          last.proba[entry.2]? = some (model.predictProba entry.1.x)) ∧
    ((∀ folds ∈ sets, entry ∉ testSet pairs folds ∨ trainSet pairs folds = []) →
      last.proba[entry.2]? = scores.proba[entry.2]?) := by
  induction sets generalizing scores with
  | nil =>
    obtain rfl := Option.some.inj scored
    exact ⟨fun folds absent => absurd absent List.not_mem_nil, fun _ => rfl⟩
  | cons first rest inductionHypothesis =>
    rw [List.foldlM_cons, Option.bind_eq_bind, Option.bind_eq_some_iff] at scored
    obtain ⟨next, here, later⟩ := scored
    obtain ⟨length, written, kept⟩ := scoreFoldSet_cases member full here
    obtain ⟨inRest, notInRest⟩ := inductionHypothesis length later
    constructor
    · intro folds inSets inTest trained unique
      by_cases again : folds ∈ rest
      · exact inRest folds again inTest trained
          (fun other inLater => unique other (List.mem_cons_of_mem _ inLater))
      · obtain rfl := (List.mem_cons.mp inSets).resolve_right again
        obtain ⟨model, fitted, score⟩ := written inTest trained
        refine ⟨model, fitted, ?_⟩
        rw [notInRest (fun other inLater => Or.inl (fun testedToo => ?_)), score]
        exact again (unique other (List.mem_cons_of_mem _ inLater) testedToo ▸ inLater)
    · intro unwritten
      rw [notInRest (fun folds inLater => unwritten folds (List.mem_cons_of_mem _ inLater)),
        kept (unwritten first List.mem_cons_self)]

variable {scores : Scores}

/-- Once the cross-validation has run, a pair has a held-out score exactly when its fold set
leaves something to train on. -/
theorem heldOut_iff
    (drawn : ∀ pair ∈ pairs, ∃ oa ob, pair.Drawn ledger (foldsUsed ledger cfg) oa ob)
    (defined : definedFor ledger cfg pairs = true)
    (validated : crossValidate ledger cfg pairs = some scores) (member : entry ∈ pairs.zipIdx) :
    HeldOut ledger cfg pairs scores entry ↔ trainSet pairs entry.1.folds ≠ [] := by
  constructor
  · rintro ⟨folds, inner, model, inTest, trained, _⟩
    obtain ⟨_, rfl⟩ := (mem_testSet_iff inner).mp inTest
    exact trained
  · intro trained
    obtain ⟨oa, ob, facts⟩ := drawn entry.1 (List.fst_mem_of_mem_zipIdx member)
    have inner := folds_mem_foldSets facts
    have inTest : entry ∈ testSet pairs entry.1.folds := (mem_testSet_iff inner).mpr ⟨member, rfl⟩
    unfold crossValidate at validated
    rw [if_pos defined] at validated
    obtain ⟨model, fitted, score⟩ := (scoreFoldSets_cases member (List.length_replicate ..)
      validated).1 _ inner inTest trained
        (fun other innerToo testedToo => ((mem_testSet_iff innerToo).mp testedToo).2)
    exact ⟨entry.1.folds, inner, model, inTest, trained, fitted, score,
      fun other inTrain operator => held_out drawn inTrain inTest operator⟩

/-- A pair whose fold set leaves nothing to train on keeps the score it started with. -/
theorem unscored_zero (defined : definedFor ledger cfg pairs = true)
    (validated : crossValidate ledger cfg pairs = some scores) (member : entry ∈ pairs.zipIdx)
    (untrained : trainSet pairs entry.1.folds = []) : scores.proba[entry.2]? = some 0.0 := by
  unfold crossValidate at validated
  rw [if_pos defined] at validated
  rw [(scoreFoldSets_cases member (List.length_replicate ..) validated).2 (fun folds inner => ?_)]
  · have bound := (List.getElem?_eq_some_iff.mp (List.mem_zipIdx_iff_getElem?.mp member)).1
    show (List.replicate pairs.length (0.0 : Float))[entry.2]? = some 0.0
    rw [List.getElem?_replicate, if_pos bound]
  · by_cases inTest : entry ∈ testSet pairs folds
    · obtain ⟨_, rfl⟩ := (mem_testSet_iff inner).mp inTest
      exact Or.inr untrained
    · exact Or.inl inTest

end Scoring

/-! ### The number of folds -/

/-- An operator owns an account, and its index tells its fold. -/
theorem exists_account {ledger : Ledger} (k : Nat) {index : Nat}
    (bound : index < (operatorsOf ledger).length) :
    ∃ account operator, (operatorsOf ledger)[index]? = some operator ∧
      ledger.ownership.lookup account = some operator ∧
        foldOf ledger k operator = some (index % k) := by
  have distinct : (operatorsOf ledger).Nodup := BTreeMap.keys_nodup _
  obtain ⟨account, owned⟩ := mem_operatorsOf.mp (List.getElem_mem bound)
  refine ⟨account, (operatorsOf ledger)[index], List.getElem?_eq_getElem bound, owned, ?_⟩
  have position : (operatorsOf ledger).idxOf? (operatorsOf ledger)[index] = some index :=
    List.idxOf?_eq_some_iff.mpr
      ⟨bound, rfl, fun _ before same => before.ne (distinct.getElem_inj_iff.mp same)⟩
  unfold foldOf
  rw [position, Option.map_some]

/-- Two indices of operators give a listed pair with their folds. -/
theorem exists_pair [Libm] {order : HashOrder} {ledger : Ledger} {cfg : MlConfig}
    {pairs : List Pair} (listed : ownedPairs order ledger cfg = some pairs) {i j : Nat}
    (ordered : i < j) (bound : j < (operatorsOf ledger).length) :
    ∃ entry ∈ pairs.zipIdx, (entry.1.fa = i % foldsUsed ledger cfg ∧
        entry.1.fb = j % foldsUsed ledger cfg ∨
      entry.1.fa = j % foldsUsed ledger cfg ∧ entry.1.fb = i % foldsUsed ledger cfg) := by
  obtain ⟨first, oa, atI, ownsA, foldA⟩ := exists_account (foldsUsed ledger cfg)
    (lt_trans ordered bound)
  obtain ⟨second, ob, atJ, ownsB, foldB⟩ := exists_account (foldsUsed ledger cfg) bound
  have apart : first ≠ second := by
    rintro rfl
    obtain rfl := Option.some.inj (ownsA.symm.trans ownsB)
    have same := (List.getElem?_inj (lt_trans ordered bound) (BTreeMap.keys_nodup _)).mp
      (atI.trans atJ.symm)
    exact ordered.ne same
  have withFolds {a b : AccountId} {oa ob : AgentId} {fa fb : Nat} (below : a < b)
      (ownsA : ledger.ownership.lookup a = some oa) (ownsB : ledger.ownership.lookup b = some ob)
      (foldA : foldOf ledger (foldsUsed ledger cfg) oa = some fa)
      (foldB : foldOf ledger (foldsUsed ledger cfg) ob = some fb) :
      ∃ entry ∈ pairs.zipIdx, entry.1.fa = fa ∧ entry.1.fb = fb := by
    obtain ⟨pair, member, rfl, rfl⟩ := ownedPairs_complete listed below ownsA ownsB
    obtain ⟨oa', ob', facts⟩ := ownedPairs_drawn listed member
    obtain rfl := Option.some.inj (facts.ownsA.symm.trans ownsA)
    obtain rfl := Option.some.inj (facts.ownsB.symm.trans ownsB)
    obtain ⟨index, atIndex⟩ := List.mem_iff_getElem?.mp member
    exact ⟨(pair, index), List.mem_zipIdx_iff_getElem?.mpr atIndex,
      Option.some.inj (facts.foldA.symm.trans foldA),
      Option.some.inj (facts.foldB.symm.trans foldB)⟩
  rcases lt_or_gt_of_ne apart with below | above
  · obtain ⟨entry, member, both⟩ := withFolds below ownsA ownsB foldA foldB
    exact ⟨entry, member, Or.inl both⟩
  · obtain ⟨entry, member, both⟩ := withFolds above ownsB ownsA foldB foldA
    exact ⟨entry, member, Or.inr both⟩

/-- From three folds on, six operators leave two outside any two folds. -/
theorem exists_outside {k count : Nat} (three : 3 ≤ k) (below : k ≤ count) (six : 6 ≤ count)
    (folds : Nat × Nat) (inner : folds ∈ foldSets k) :
    ∃ i j, i < j ∧ j < count ∧ (i % k ≠ folds.1 ∧ i % k ≠ folds.2) ∧
      j % k ≠ folds.1 ∧ j % k ≠ folds.2 := by
  obtain ⟨fi, fj⟩ := folds
  by_cases exact : k = 3
  · -- The third fold has two operators, three apart.
    subst exact
    have third : ∃ f, f < 3 ∧ f ≠ fi ∧ f ≠ fj := by
      by_contra none
      push Not at none
      have zero := none 0
      have one := none 1
      have two := none 2
      omega
    obtain ⟨f, small, apart⟩ := third
    refine ⟨f, f + 3, by omega, by omega, ?_⟩
    rw [Nat.add_mod_right, Nat.mod_eq_of_lt small]
    exact ⟨apart, apart⟩
  · -- Two of the first four folds are left, and each has an operator.
    have others : ∃ i j, i < j ∧ j < 4 ∧ (i ≠ fi ∧ i ≠ fj) ∧ j ≠ fi ∧ j ≠ fj := by
      by_contra none
      push Not at none
      have zeroOne := none 0 1
      have zeroTwo := none 0 2
      have zeroThree := none 0 3
      have oneTwo := none 1 2
      have oneThree := none 1 3
      have twoThree := none 2 3
      omega
    obtain ⟨i, j, ordered, small, apart⟩ := others
    refine ⟨i, j, ordered, by omega, ?_⟩
    rw [Nat.mod_eq_of_lt (by omega), Nat.mod_eq_of_lt (by omega)]
    exact apart

/-- Of two folds, the fold set of both leaves nothing to train on. -/
theorem trainSet_twoFolds {ledger : Ledger} {cfg : MlConfig} {pairs : List Pair}
    (drawn : ∀ pair ∈ pairs, ∃ oa ob, pair.Drawn ledger (foldsUsed ledger cfg) oa ob)
    (two : foldsUsed ledger cfg = 2) {entry : Pair × Nat} (member : entry ∈ pairs.zipIdx)
    (cross : entry.1.fa ≠ entry.1.fb) : trainSet pairs entry.1.folds = [] := by
  have foldsBelow {pair : Pair} (listed : pair ∈ pairs) : pair.fa < 2 ∧ pair.fb < 2 := by
    obtain ⟨oa, ob, facts⟩ := drawn pair listed
    rw [two] at facts
    exact ⟨foldOf_lt Nat.two_pos facts.foldA, foldOf_lt Nat.two_pos facts.foldB⟩
  refine List.eq_nil_iff_forall_not_mem.mpr (fun trained inTrain => ?_)
  obtain ⟨inPairs, apart, _⟩ := mem_trainSet.mp inTrain
  have here := foldsBelow (List.fst_mem_of_mem_zipIdx member)
  have there := foldsBelow (List.fst_mem_of_mem_zipIdx inPairs)
  unfold Pair.folds at apart
  omega

theorem definedFor_iff {ledger : Ledger} {cfg : MlConfig} {pairs : List Pair} :
    definedFor ledger cfg pairs = true ↔
    (cfg.minOperators ≤ (operatorsOf ledger).length ∧
      cfg.minPositivePairs ≤ (pairs.filter (·.y)).length) ∧ 2 ≤ foldsUsed ledger cfg := by
  unfold definedFor
  simp only [Bool.and_eq_true, decide_eq_true_eq, ge_iff_le]

section Counting

variable [Libm] {order : HashOrder} {ledger : Ledger} {cfg : MlConfig} {pairs : List Pair}

/-- From three folds on, every fold set leaves a pair to train on. -/
theorem trainSet_nonempty (listed : ownedPairs order ledger cfg = some pairs)
    (six : 6 ≤ (operatorsOf ledger).length) (three : 3 ≤ foldsUsed ledger cfg)
    (below : foldsUsed ledger cfg ≤ (operatorsOf ledger).length) {folds : Nat × Nat}
    (inner : folds ∈ foldSets (foldsUsed ledger cfg)) : trainSet pairs folds ≠ [] := by
  obtain ⟨i, j, ordered, bound, apartI, apartJ⟩ := exists_outside three below six folds inner
  obtain ⟨entry, member, held⟩ := exists_pair listed ordered bound
  refine List.ne_nil_of_mem (mem_trainSet.mpr ⟨member, ?_⟩)
  rcases held with ⟨equalA, equalB⟩ | ⟨equalA, equalB⟩
  · rw [equalA, equalB]
    exact ⟨apartI, apartJ⟩
  · rw [equalA, equalB]
    exact ⟨apartJ, apartI⟩

/-- What a report with a defined area was computed from. -/
theorem mlAttribution_defined {clustering : Clustering} {report : MlReport}
    (ran : mlAttribution order ledger cfg = some (clustering, report))
    (reported : report.rocAucDefined = true) :
    ∃ pairs scores, ownedPairs order ledger cfg = some pairs ∧
      definedFor ledger cfg pairs = true ∧ crossValidate ledger cfg pairs = some scores ∧
      rocAuc (pooled pairs scores) = some (some report.rocAuc) := by
  simp only [mlAttribution, Option.bind_eq_bind, Option.bind_eq_some_iff] at ran
  obtain ⟨pairs, listed, scores, validated, auc, area, _, _, _, _, _, _, _, _, equal⟩ := ran
  obtain ⟨_, rfl⟩ := Prod.mk.inj (Option.some.inj equal)
  obtain ⟨defined, present⟩ := Bool.and_eq_true_iff.mp reported
  obtain ⟨value, rfl⟩ := Option.isSome_iff_exists.mp present
  refine ⟨pairs, scores, listed, defined, validated, ?_⟩
  show rocAuc (pooled pairs scores) =
    some (some (if definedFor ledger cfg pairs then value else nan))
  rw [if_pos defined, area]

/-- With the default minimum of operators, the pairs behind a defined area all have a score from a
model that was fitted on some pairs and blind to both their operators exactly when the
configuration does not ask for two folds. -/
theorem pooled_held_out (order : HashOrder) (ledger : Ledger) (cfg : MlConfig)
    (operators : cfg.minOperators = MlConfig.standard.minOperators)
    (clustering : Clustering) (report : MlReport)
    (ran : mlAttribution order ledger cfg = some (clustering, report))
    (reported : report.rocAucDefined = true) :
    ∃ pairs scores, ownedPairs order ledger cfg = some pairs ∧
      crossValidate ledger cfg pairs = some scores ∧
      rocAuc (pooled pairs scores) = some (some report.rocAuc) ∧
      ((∀ entry ∈ pairs.zipIdx, HeldOut ledger cfg pairs scores entry) ↔ cfg.folds ≠ 2) := by
  obtain ⟨pairs, scores, listed, defined, validated, area⟩ := mlAttribution_defined ran reported
  have drawn (pair : Pair) (member : pair ∈ pairs) := ownedPairs_drawn listed member
  obtain ⟨⟨six, _⟩, two⟩ := definedFor_iff.mp defined
  rw [operators] at six
  have count : foldsUsed ledger cfg = max (min cfg.folds (operatorsOf ledger).length) 1 := rfl
  have six : 6 ≤ (operatorsOf ledger).length := six
  refine ⟨pairs, scores, listed, validated, area, fun heldOut twoFolds => ?_,
    fun notTwo entry member => ?_⟩
  · obtain ⟨entry, member, cross⟩ := exists_pair (i := 0) (j := 1) listed Nat.one_pos (by omega)
    have used : foldsUsed ledger cfg = 2 := by omega
    rw [used] at cross
    refine (heldOut_iff drawn defined validated member).mp (heldOut entry member) ?_
    exact trainSet_twoFolds drawn used member (by omega)
  · obtain ⟨oa, ob, facts⟩ := drawn entry.1 (List.fst_mem_of_mem_zipIdx member)
    refine (heldOut_iff drawn defined validated member).mpr ?_
    exact trainSet_nonempty listed six (by omega) (by omega) (folds_mem_foldSets facts)

end Counting

/-- Three folds of a small fleet, of which one positive pair is asked. -/
theorem pooled_held_out_unevenFleet : ∃ (cfg : MlConfig) (clustering : Clustering)
    (report : MlReport) (pairs : List Pair) (scores : Scores),
    @mlAttribution unevenLibm HashOrder.asWritten (unevenFleet 7) cfg =
      some (clustering, report) ∧ report.rocAucDefined = true ∧
    @crossValidate unevenLibm (unevenFleet 7) cfg pairs = some scores ∧
    ∀ entry ∈ pairs.zipIdx, @HeldOut unevenLibm (unevenFleet 7) cfg pairs scores entry := by
  have ran : ((@mlAttribution unevenLibm HashOrder.asWritten (unevenFleet 7)
      { unfitted 3 with minPositivePairs := 1 }).any (fun result => result.2.rocAucDefined)) =
        true := by decide +kernel
  obtain ⟨⟨clustering, report⟩, attributed, reported⟩ := (Option.any_eq_true _ _).mp ran
  obtain ⟨pairs, scores, _, validated, _, exact⟩ := @pooled_held_out unevenLibm
    HashOrder.asWritten (unevenFleet 7) { unfitted 3 with minPositivePairs := 1 } rfl clustering
    report attributed reported
  have three : ({ unfitted 3 with minPositivePairs := 1 } : MlConfig).folds ≠ 2 :=
    Nat.succ_ne_self 2
  exact ⟨_, clustering, report, pairs, scores, attributed, reported, validated, exact.mpr three⟩

/-- Two folds of an uneven fleet, with the default minima: the area is defined, and a pair across
the folds enters it with the score it started with. -/
theorem twoFolds_unscored :
    ∃ (clustering : Clustering) (report : MlReport) (pairs : List Pair) (scores : Scores)
      (entry : Pair × Nat),
    @mlAttribution unevenLibm HashOrder.asWritten (unevenFleet 12) (unfitted 2) =
      some (clustering, report) ∧ report.rocAucDefined = true ∧
    @ownedPairs unevenLibm HashOrder.asWritten (unevenFleet 12) (unfitted 2) = some pairs ∧
    @crossValidate unevenLibm (unevenFleet 12) (unfitted 2) pairs = some scores ∧
    rocAuc (pooled pairs scores) = some (some report.rocAuc) ∧
    entry ∈ pairs.zipIdx ∧ scores.proba[entry.2]? = some 0.0 ∧
    ¬ @HeldOut unevenLibm (unevenFleet 12) (unfitted 2) pairs scores entry := by
  have ran : ((@mlAttribution unevenLibm HashOrder.asWritten (unevenFleet 12) (unfitted 2)).any
      (fun result => result.2.rocAucDefined)) = true := by decide +kernel
  obtain ⟨⟨clustering, report⟩, attributed, reported⟩ := (Option.any_eq_true _ _).mp ran
  obtain ⟨pairs, scores, listed, defined, validated, area⟩ := @mlAttribution_defined unevenLibm
    HashOrder.asWritten (unevenFleet 12) (unfitted 2) clustering report attributed reported
  have drawn (pair : Pair) (member : pair ∈ pairs) := @ownedPairs_drawn unevenLibm
    HashOrder.asWritten (unevenFleet 12) (unfitted 2) pairs listed pair member
  have used : foldsUsed (unevenFleet 12) (unfitted 2) = 2 := by decide +kernel
  have several : 1 < (operatorsOf (unevenFleet 12)).length := by decide +kernel
  obtain ⟨entry, member, cross⟩ := @exists_pair unevenLibm HashOrder.asWritten (unevenFleet 12)
    (unfitted 2) pairs listed 0 1 Nat.one_pos several
  rw [used] at cross
  have untrained := trainSet_twoFolds drawn used member (by omega)
  have score := @unscored_zero unevenLibm (unevenFleet 12) (unfitted 2) pairs entry scores
    defined validated member untrained
  have heldOut := @heldOut_iff unevenLibm (unevenFleet 12) (unfitted 2) pairs entry scores drawn
    defined validated member
  exact ⟨clustering, report, pairs, scores, entry, attributed, reported, listed, validated, area,
    member, score, fun held => heldOut.mp held untrained⟩

end AccountCooker
