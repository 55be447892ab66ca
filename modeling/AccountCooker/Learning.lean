/-
This file models the learned adversary: logistic regression over the features
of the owned pairs, cross-validated so that a pair is scored by a model that
trained on neither of its operators, and the area under the curve of the pooled
scores.

A row of features is the list of their values. The owned accounts and their
operators are sorted before they are used, so that the iteration order of the
ownership map leaves no trace.
-/

import Mathlib
import AccountCooker.Features
import AccountCooker.Metric

namespace AccountCooker

open Collections

/-! ### Logistic regression -/

/-- The number of features. -/
def nfeat : Nat := 8

/-- The feature names, in the order a vector is built. -/
def featureNames : List String :=
  ["fee_payer_jaccard", "dest_jaccard", "coburst", "windowed_copay", "funding_hop",
    "activation_lineage", "peel", "timespan_overlap"]

/-- `[0.0; NFEAT]`. -/
def zeros : List Float := List.replicate nfeat 0.0

structure LogReg where
  weights : List Float
  bias : Float
  mean : List Float
  std : List Float

/-- What one pass over the training set adds up. -/
structure Gradient where
  weights : List Float
  bias : Float
  total : Float

namespace LogReg

/-- The mean of each feature. -/
def meanOf (x : List (List Float)) : List Float :=
  (x.foldl (List.zipWith (· + ·)) zeros).map (· / F64.ofU64 x.length)

/-- The standard deviation of each feature; a constant one is only centered. -/
def stdOf (x : List (List Float)) (mean : List Float) : List Float :=
  (x.foldl (fun std row =>
    List.zipWith (fun s d => s + d * d) std (List.zipWith (· - ·) row mean)) zeros).map (fun s =>
      let s := (s / F64.ofU64 x.length).sqrt
      if s < 1e-9 then 1.0 else s)

/-- A row on the scale of the training set. -/
def standardise (model : LogReg) (row : List Float) : List Float :=
  List.zipWith (· / ·) (List.zipWith (· - ·) row model.mean) model.std

section Fitting

variable [Libm]

def sigmoid (z : Float) : Float := 1.0 / (1.0 + Libm.exp (-z))

/-- What one row adds to the gradient; a row of the rare class weighs `wPos`. -/
def accumulate (model : LogReg) (wPos : Float) (gradient : Gradient) (row : List Float × Float) :
    Gradient :=
  let z := model.standardise row.1
  let p := sigmoid ((model.weights.zip z).foldl (fun zz entry => zz + entry.1 * entry.2) model.bias)
  let sw := if 0.5 < row.2 then wPos else 1.0
  let err := sw * (p - row.2)
  ⟨List.zipWith (fun g v => g + err * v) gradient.weights z, gradient.bias + err,
    gradient.total + sw⟩

/-- One step of the full-batch descent. -/
def descend (x : List (List Float)) (y : List Float) (cfg : MlConfig) (wPos : Float)
    (model : LogReg) : LogReg :=
  let gradient := (x.zip y).foldl (model.accumulate wPos) ⟨zeros, 0.0, 0.0⟩
  let scale := cfg.learningRate / F64.max gradient.total 1.0
  { model with
    weights := List.zipWith (fun w g => w - scale * (g + cfg.l2 * w)) model.weights gradient.weights
    bias := model.bias - scale * gradient.bias }

/-- Fit by descent from zero; weights that are not finite fail the assertion. -/
def fit (x : List (List Float)) (y : List Float) (cfg : MlConfig) : Option LogReg := do
  let mean := meanOf x
  let std := stdOf x mean
  let positives := (y.filter (fun v => 0.5 < v)).length
  let negatives ← checkedSub x.length positives
  let wPos := F64.ofU64 (max negatives 1) / F64.ofU64 (max positives 1)
  let model := (descend x y cfg wPos)^[cfg.iters] ⟨zeros, 0.0, mean, std⟩
  if model.weights.all Float.isFinite && model.bias.isFinite then some model else none

/-- The probability the model gives a row. -/
def predictProba (model : LogReg) (row : List Float) : Float :=
  sigmoid (((model.weights.zip row).zip (model.mean.zip model.std)).foldl
    (fun z entry => z + entry.1.1 * (entry.1.2 - entry.2.1) / entry.2.2) model.bias)

end Fitting

end LogReg

/-! ### The area under the curve -/

/-- The key by which `total_cmp` compares: the bits of a negative float count backwards. -/
def totalKey (x : Float) : Int :=
  let bits : Int := x.toBits.toNat
  if bits < 2 ^ 63 then bits else 2 ^ 63 - 1 - bits

/-- The order of the scores. -/
def scoreBefore (first second : Float × Bool) : Prop := totalKey first.1 ≤ totalKey second.1

instance : DecidableRel scoreBefore := fun first second =>
  inferInstanceAs (Decidable (totalKey first.1 ≤ totalKey second.1))

/-- The ranks met so far, and the sum of those of the positives: a group of tied scores has the
average of its ranks. -/
def rankGroup (state : Nat × Float) (group : List (Float × Bool)) : Nat × Float :=
  let next := state.1 + group.length
  let avg := F64.ofU64 (state.1 + 1 + next) / 2.0
  (next, group.foldl (fun sum score => if score.2 then sum + avg else sum) state.2)

/-- The Mann-Whitney statistic of some scores, undefined without positives or without negatives;
the outer `none` is an overflow panic. -/
def rocAuc (scores : List (Float × Bool)) : Option (Option Float) := do
  let nPos := (scores.filter Prod.snd).length
  let nNeg := scores.length - nPos
  if nPos = 0 || nNeg = 0 then pure none
  else
    let groups := (scores.insertionSort scoreBefore).splitBy (fun first next => next.1 == first.1)
    let rankSumPos := (groups.foldl rankGroup (0, 0.0)).2
    let product ← checkedU64 (nPos * (nPos + 1))
    pure (some ((rankSumPos - F64.ofU64 product / 2.0) / (F64.ofU64 nPos * F64.ofU64 nNeg)))

/-! ### Owned pairs -/

/-- A pair of owned accounts: its features, whether one operator owns both, and the folds of the
operators. -/
structure Pair where
  a : AccountId
  b : AccountId
  x : List Float
  y : Bool
  fa : Nat
  fb : Nat

/-- The owned accounts, in order. -/
def ownedAccounts (ledger : Ledger) : List AccountId :=
  (BTreeMap.setOf ledger.ownership.keys).keys

/-- The operators of the owned accounts, in order. -/
def operatorsOf (ledger : Ledger) : List AgentId :=
  (BTreeMap.setOf (ledger.ownership.entries.map Sigma.snd)).keys

/-- The number of folds, at most one per operator. -/
def foldsUsed (ledger : Ledger) (cfg : MlConfig) : Nat :=
  max (min cfg.folds (operatorsOf ledger).length) 1

/-- The fold of an operator: its index among all of them, modulo the number of folds. -/
def foldOf (ledger : Ledger) (k : Nat) (op : AgentId) : Option Nat :=
  ((operatorsOf ledger).idxOf? op).map (· % k)

section Attribution

variable [Libm]

def pairOf (ledger : Ledger) (k : Nat) (feats : Features) (accounts : AccountId × AccountId) :
    Option Pair := do
  let oa ← ledger.ownership.lookup accounts.1
  let ob ← ledger.ownership.lookup accounts.2
  let x ← feats.vector accounts.1 accounts.2
  let fa ← foldOf ledger k oa
  let fb ← foldOf ledger k ob
  pure ⟨accounts.1, accounts.2, x, oa = ob, fa, fb⟩

/-- All owned pairs, in sorted order. -/
def ownedPairs (order : HashOrder) (ledger : Ledger) (cfg : MlConfig) : Option (List Pair) := do
  let feats ← Features.build order ledger cfg
  (orderedPairs (ownedAccounts ledger)).mapM (pairOf ledger (foldsUsed ledger cfg) feats)

/-- There are enough operators, positive pairs and folds to report a score. -/
def definedFor (ledger : Ledger) (cfg : MlConfig) (pairs : List Pair) : Bool :=
  (operatorsOf ledger).length ≥ cfg.minOperators &&
    (pairs.filter (·.y)).length ≥ cfg.minPositivePairs && foldsUsed ledger cfg ≥ 2

/-! ### Cross-validation -/

/-- The unordered pairs of folds, in the order of the two loops. -/
def foldSets (k : Nat) : List (Nat × Nat) :=
  (List.range k).flatMap (fun fi => (List.range' fi (k - fi)).map (fun fj => (fi, fj)))

/-- The pairs with both endpoints outside the folds, with their indices. -/
def trainSet (pairs : List Pair) (folds : Nat × Nat) : List (Pair × Nat) :=
  pairs.zipIdx.filter (fun p => p.1.fa ≠ folds.1 && p.1.fa ≠ folds.2 && p.1.fb ≠ folds.1 &&
    p.1.fb ≠ folds.2)

/-- The pairs that land in the folds, with their indices. -/
def testSet (pairs : List Pair) (folds : Nat × Nat) : List (Pair × Nat) :=
  pairs.zipIdx.filter (fun p => p.1.fa = folds.1 && p.1.fb = folds.2 ||
    p.1.fa = folds.2 && p.1.fb = folds.1)

/-- The scores and the weights of the models fitted so far. -/
structure Scores where
  proba : List Float
  weightAcc : List Float
  weightN : Float

/-- The model of a fold set. -/
def fitFoldSet (cfg : MlConfig) (pairs : List Pair) (folds : Nat × Nat) : Option LogReg :=
  LogReg.fit ((trainSet pairs folds).map (·.1.x))
    ((trainSet pairs folds).map (fun p => if p.1.y then 1.0 else 0.0)) cfg

/-- One fold set; without pairs to score or to train on it is skipped. -/
def scoreFoldSet (cfg : MlConfig) (pairs : List Pair) (scores : Scores) (folds : Nat × Nat) :
    Option Scores :=
  if (testSet pairs folds).isEmpty then some scores
  else if (trainSet pairs folds).isEmpty then some scores
  else do
    let model ← fitFoldSet cfg pairs folds
    let trained := F64.ofU64 (trainSet pairs folds).length
    pure {
      proba := (testSet pairs folds).foldl
        (fun proba p => proba.set p.2 (model.predictProba p.1.x)) scores.proba
      weightAcc := List.zipWith (fun acc w => acc + w * trained) scores.weightAcc model.weights
      weightN := scores.weightN + trained }

/-- The scores before any model is fitted. -/
def unscored (pairs : List Pair) : Scores := ⟨List.replicate pairs.length 0.0, zeros, 0.0⟩

/-- One model per fold set, which scores the pairs of that fold set. -/
def crossValidate (ledger : Ledger) (cfg : MlConfig) (pairs : List Pair) : Option Scores :=
  if definedFor ledger cfg pairs then
    (foldSets (foldsUsed ledger cfg)).foldlM (scoreFoldSet cfg pairs) (unscored pairs)
  else some (unscored pairs)

/-! ### The report -/

structure MlReport where
  rocAuc : Float
  rocAucDefined : Bool
  report : Report
  featureWeights : List (String × Float)
  singleFeatureAucs : List (String × Float)
  numPairs : Nat
  numPositivePairs : Nat
  foldsUsed : Nat

/-- The scores that enter the reported area. -/
def pooled (pairs : List Pair) (scores : Scores) : List (Float × Bool) :=
  List.zipWith (fun p proba => (proba, p.y)) pairs scores.proba

/-- `(p * 1e6).round() / 1e6`. -/
def quantise (p : Float) : Float := F64.round (p * 1e6) / 1e6

/-- `f64::NAN`. -/
def nan : Float := 0.0 / 0.0

/-- The area of one feature used alone. -/
def featureAuc (pairs : List Pair) (feature : Nat × String) : Option (String × Float) := do
  let auc ← rocAuc (pairs.map (fun p => (p.x.getD feature.1 0.0, p.y)))
  pure (feature.2, auc.getD nan)

/-- Train with operator-disjoint cross-validation and score the ledger; `none` is a panic. -/
def mlAttribution (order : HashOrder) (ledger : Ledger) (cfg : MlConfig) :
    Option (Clustering × MlReport) := do
  let pairs ← ownedPairs order ledger cfg
  let defined := definedFor ledger cfg pairs
  let scores ← crossValidate ledger cfg pairs
  let auc ← rocAuc (pooled pairs scores)
  let single ← ((List.range nfeat).zip featureNames).mapM (featureAuc pairs)
  let linked := if defined then (pairs.zip scores.proba).filter
    (fun p => cfg.threshold ≤ quantise p.2) else []
  let uf ← UnionFind.unionAll (UnionFind.new ledger.accounts.keys)
    (linked.map (fun p => (p.1.a, p.1.b)))
  let clustering ← materialize uf ledger.accounts.keys
  let report ← evaluate order ledger clustering cfg.windowSecs
  pure (clustering, {
    rocAuc := if defined then auc.getD nan else nan
    rocAucDefined := defined && auc.isSome
    report := report
    featureWeights := List.zipWith (fun name acc =>
      (name, if 0.0 < scores.weightN then acc / scores.weightN else 0.0))
      featureNames scores.weightAcc
    singleFeatureAucs := single
    numPairs := pairs.length
    numPositivePairs := (pairs.filter (·.y)).length
    foldsUsed := foldsUsed ledger cfg })

end Attribution

end AccountCooker
