/-
This file models the two commands that read a ledger file, `report` and `cost`,
and proves that they read what `dump` writes: a fleet within its capacity is
dumped, reported on and priced without an error or a panic, and its price is
that of its records.

A record costs two signatures, or one if its source pays its own fee. So a run
of the cooker costs two for each record, its funding a third, and a naive run
something in between.
-/

import Mathlib
import AccountCooker.Commands
import AccountCooker.Endurance
import AccountCooker.FunderGraph
import AccountCooker.Isolation
import AccountCooker.Reproducible
import AccountCooker.Totality

namespace AccountCooker

open Collections

/-! ### Sums -/

def u128Max : Nat := 2 ^ 128 - 1

/-- The result of a `u128` addition: a panic when it overflows. -/
def checkedU128 (value : Nat) : Option Nat := if value ≤ u128Max then some value else none

/-- `items.iter().sum()` of `u128`s. -/
def sumU128 (items : List Nat) : Option Nat :=
  items.foldlM (fun total item => checkedU128 (total + item)) 0

section Reading

variable (fs : FileSystem) (fromStr : String → Except String Ledger)
  (fromU128 : Nat → Option Nat)

/-- Read a ledger file. -/
def readLedger (path : String) : Except ErrorChain Ledger := do
  let raw ← withContext ("reading " ++ path) (ofIo (fs.readToString path))
  withContext "parsing ledger JSON" (ofText (fromStr raw))

/-- What a command says, or how it stops: with an error, or where nothing is computed with a
panic. -/
def said {Result : Type} (read : Except ErrorChain Ledger) (compute : Ledger → Option Result) :
    Except Exit Result :=
  match read with
  | .error chain => .error (.error chain)
  | .ok ledger =>
    match compute ledger with
    | none => .error .panicked
    | some result => .ok result

/-- The adversary of a report. -/
def reportAdversary (funderAware : Bool) : AdversaryConfig :=
  if funderAware then .funderAware 120 else .windowed 120

/-- Report on a ledger file. -/
def report (order : HashOrder) (path : String) (funderAware : Bool) : Except Exit Report :=
  said (readLedger fs fromStr path) fun ledger =>
    (analyze order ledger (reportAdversary funderAware)).map Prod.snd

/-- The signatures of a record. -/
def TxRecord.signatures (record : TxRecord) : Nat :=
  if record.feePayer = record.source then 1 else 2

/-- What `cost` says. -/
structure Cost where
  transactions : Nat
  estimatedSignatures : Nat
  lamportsPerSignatureAssumption : Nat
  estimatedNetworkFeesLamports : Nat
  transferredLamports : Nat
  note : String
  scope : String

/-- The price of a ledger at so much a signature; a `u128` that has no JSON number panics. -/
def Ledger.price (lamportsPerSignature : Nat) (ledger : Ledger) : Option Cost := do
  let signatureCount ← sumU128 (ledger.records.map TxRecord.signatures)
  let transferredLamports ← sumU128 (ledger.records.map (·.amount))
  let estimatedSignatures ← fromU128 signatureCount
  let estimatedNetworkFeesLamports ←
    fromU128 (min (signatureCount * lamportsPerSignature) u128Max)
  let transferredLamports ← fromU128 transferredLamports
  pure {
    transactions := ledger.records.length
    estimatedSignatures := estimatedSignatures
    lamportsPerSignatureAssumption := lamportsPerSignature
    estimatedNetworkFeesLamports := estimatedNetworkFeesLamports
    transferredLamports := transferredLamports
    note := "Transferred value includes internal rotation and cover traffic; it is volume, not " ++
      "net loss."
    scope := "Fees cover the records present in this ledger. If fee-payer funding was not " ++
      "modeled, those funding transactions and fees are excluded." }

/-- Price a ledger file. -/
def cost (path : String) (lamportsPerSignature : Nat) : Except Exit Cost :=
  said (readLedger fs fromStr path) (Ledger.price fromU128 lamportsPerSignature)

end Reading

/-! ### Reports -/

/-- A ledger is analysed, and the same whatever the order of the iterations, while its slots, its
times and their number are small. -/
theorem analyze_returns {ledger : Ledger} {cfg : AdversaryConfig}
    (small : ledger.records.length < 2 ^ 32) (slots : ∀ r ∈ ledger.records, r.slot < u64Max)
    (low : ∀ r ∈ ledger.records, i64Min ≤ r.ts) (window : 0 ≤ cfg.temporalWindowSecs)
    (high : ∀ r ∈ ledger.records, r.ts + cfg.temporalWindowSecs ≤ i64Max) :
    ∃ scored, ∀ order, analyze order ledger cfg = some scored := by
  have bursts : BurstsInRange ledger.records := by
    intro pair member _
    have inLedger := (List.mem_insertionSort slotBefore).mp (List.of_mem_zip member).1
    exact (slots _ inLedger).ne
  have peels : PeelsInRange ledger.records cfg.temporalWindowSecs := by
    intro a inRecords b _ _ _ _
    have least := low a inRecords
    have most := high a inRecords
    omega
  obtain ⟨pairs, requested⟩ :=
    requestedUnions_of_inRange .asWritten bursts (fun _ : cfg.useTemporalAmount = true => peels)
  obtain ⟨report, evaluated⟩ := evaluate_of_small .asWritten
    (clusteringOf (Linked pairs) ledger) (if cfg.useWindowed then cfg.windowSecs else 0) small
    bursts
  have few : ledger.ownership.keys.length < 2 ^ 53 := by
    have owned := ownership_length_le ledger
    unfold AList.keys List.keys
    rw [List.length_map]
    omega
  refine ⟨(clusteringOf (Linked pairs) ledger, report), fun order => ?_⟩
  rw [analyze_order order .asWritten ledger cfg few]
  simp only [analyze, cluster_eq requested, evaluated, Option.bind_eq_bind, Option.bind_some]
  rfl

theorem read_of_text {fs : FileSystem} {fromStr : String → Except String Ledger}
    {path text : String} {ledger : Ledger} (stored : fs.readToString path = .ok text)
    (parsed : fromStr text = .ok ledger) : readLedger fs fromStr path = .ok ledger := by
  unfold readLedger
  rw [stored]
  exact withContext_eq_ok.mpr (ofText_eq_ok.mpr parsed)

section Pipeline

variable {console : Console} {Generator : Type} [Rng Generator] [Libm] {bounds : Bounds}
  {args : FleetArgs} {personas : List Persona} {cfg : SimConfig}
  {fromStr : String → Except String Ledger}

omit [Rng Generator] [Libm] in
/-- What a command simulates is what the command line accepts, with personas. -/
theorem prepare_configured (prepared : prepare console args = .ok (personas, cfg)) :
    personas ≠ [] ∧ ∃ base, baseCfg args.agents args.days args.seed args.external = .ok base ∧
      ∃ mode hardenTiming hardening funding, cfg = { base with
        mode := mode
        hardenTiming := hardenTiming
        hardening := hardening
        funding := funding } := by
  unfold prepare at prepared
  simp only [except_bind_eq_ok, ofText_eq_ok] at prepared
  obtain ⟨mode, _, funding, _, base, accepted, rebalance, _, loaded, found, same⟩ := prepared
  obtain ⟨rfl, rfl⟩ := Prod.mk.inj (Except.ok.inj same)
  refine ⟨?_, base, accepted, mode, base.hardenTiming, _, funding, rfl⟩
  unfold loadPersonas at found
  simp only [except_bind_eq_ok] at found
  obtain ⟨paths, _, some, chosen, _, _, equal⟩ := found
  rw [← Except.ok.inj equal]
  rcases personasOf_eq_ok.mp chosen with ⟨_, rfl⟩ | ⟨nonempty, each⟩
  · exact List.cons_ne_nil _ _
  · rintro rfl
    exact nonempty (List.forall₂_nil_right_iff.mp each)

/-- A fleet within its capacity is dumped, and what is dumped is reported on: whatever is drawn, the
simulation returns a ledger, neither command fails on it, and the report counts its accounts and
does not depend on the order of the adversary's iterations. -/
theorem dump_reported (bounded : LogBounded)
    (prepared : prepare console args = .ok (personas, cfg))
    (capacity : Capacity Generator bounds personas cfg) (small : bounds.total cfg < 2 ^ 32)
    (late : bounds.latest cfg + 120 ≤ i64Max)
    (roundTrip : ∀ fuel ledger, simulate Generator fuel personas cfg = .returned ledger →
      ∃ text, utf8 text = console.toStringPretty ledger ∧ fromStr text = .ok ledger) :
    ∃ (ledger : Ledger) (text : String),
      (∀ fuel, bounds.wakes cfg < fuel →
        simulate Generator fuel personas cfg = .returned ledger) ∧
      Dumps console Generator args (utf8 text) ledger.records.length ∧
      ∀ funderAware, ∃ reported : Report, reported.numAccounts = ledger.accounts.keys.length ∧
        reported.windowSecs = 120 ∧ ∀ (fs : FileSystem) (path : String),
          fs.readToString path = .ok text → ∀ order,
            report fs fromStr order path funderAware = .ok reported := by
  obtain ⟨nonempty, base, accepted, configured⟩ := prepare_configured prepared
  obtain ⟨ledger, simulated, capped⟩ := simulate_capped bounded accepted configured nonempty
    capacity (Nat.lt_succ_self (bounds.wakes cfg))
  obtain ⟨text, written, parsed⟩ := roundTrip _ ledger simulated
  have dumps := dumps_of_simulate prepared simulated
  rw [← written] at dumps
  refine ⟨ledger, text, fun fuel more => ?_, dumps, fun funderAware => ?_⟩
  · rw [simulate_ended (fun running => by cases simulated.symm.trans running) more, simulated]
  have window : (reportAdversary funderAware).temporalWindowSecs = 120 := by
    cases funderAware <;> rfl
  have windowed : (reportAdversary funderAware).useWindowed = true ∧
      (reportAdversary funderAware).windowSecs = 120 := by
    cases funderAware <;> exact ⟨rfl, rfl⟩
  have earliest : i64Min ≤ cfg.earliest := by
    unfold SimConfig.earliest
    split
    · obtain ⟨mode, hardenTiming, hardening, funding, same⟩ := configured
      rw [same, (baseCfg_eq_ok accepted).1]
      decide
    · rename_i fcfg funding
      exact (capacity.leads fcfg funding).2
  obtain ⟨⟨clustering, reported⟩, scored⟩ :
      ∃ scored, ∀ order, analyze order ledger (reportAdversary funderAware) = some scored := by
    refine analyze_returns (capped.count.trans_lt small)
      (fun r member => (capped.slots r member).trans_lt (small.trans (by decide)))
      (fun r member => earliest.trans (capped.times r member).1) (by rw [window]; decide)
      (fun r member => ?_)
    have last := (capped.times r member).2
    rw [window]
    omega
  have shape : reported.numAccounts = ledger.accounts.keys.length ∧ reported.windowSecs = 120 := by
    have analyzed := scored .asWritten
    unfold analyze evaluate at analyzed
    simp only [Option.bind_eq_bind, Option.bind_eq_some_iff, Option.pure_def, Option.some_inj,
      Prod.mk.injEq] at analyzed
    obtain ⟨_, _, _, ⟨_, _, _, _, _, _, _, _, _, _, _, _, _, _, _, _, rfl⟩, rfl, rfl⟩ := analyzed
    rw [if_pos windowed.1]
    exact ⟨rfl, windowed.2⟩
  refine ⟨reported, shape.1, shape.2, fun fs path stored order => ?_⟩
  unfold report said
  rw [read_of_text stored parsed]
  simp only [scored order]
  rfl

end Pipeline

/-! ### A day, dumped and reported on -/

/-- A ledger as an object with its records. -/
def ledgerCodec : Codec Ledger :=
  (Fields.object (.cons "records" recordCodec.list .nil) (by decide +kernel)).map
    (fun (records, ()) => some ⟨records⟩) (fun ledger => (ledger.records, ()))
    fun _ => rfl

/-- The text of a ledger. -/
def ledgerText (ledger : Ledger) : String := textOf (ledgerCodec.write ledger).render

/-- Read the text of a ledger. -/
def parseLedger (text : String) : Except String Ledger :=
  ledgerCodec.parse "expected value at line 1 column 1" (text.toList.map Char.toUInt8)

theorem parseLedger_ledgerText (ledger : Ledger) :
    parseLedger (ledgerText ledger) = .ok ledger := by
  unfold parseLedger ledgerText
  rw [bytes_textOf]
  exact ledgerCodec.parse_render _ ledger

/-- A console with the file of one persona. -/
def retailConsole : Console where
  fs := ⟨fun _ => .error fileNotFound,
    fun path => if path = "retail.toml" then .ok "name = \"retail\"" else .error fileNotFound⟩
  fromTomlStr text :=
    if text = "name = \"retail\"" then .ok Persona.retail else .error "expected a persona"
  toStringPretty ledger := utf8 (ledgerText ledger)
  toLowercase := String.toLower

/-- Two retail users for a day, funded from their hubs. -/
def retailArgs : FleetArgs := ⟨"cooker", 2, 1, 1, 2, "hub", 0, "rotate", ⟨["retail.toml"], none⟩⟩

theorem retailArgs_prepared :
    prepare retailConsole retailArgs = .ok ([Persona.retail], oneDay) := by
  have lower : (retailConsole.toLowercase "cooker" = "cooker" ∧
      retailConsole.toLowercase "hub" = "hub") ∧
        retailConsole.toLowercase "rotate" = "rotate" := by decide +kernel
  have mode : parseMode retailConsole "cooker" = .ok .cooker := by
    unfold parseMode
    rw [lower.1.1]
    rfl
  have funding : parseFunding retailConsole "hub" 0 = .ok (some (.new .operatorHub)) := by
    unfold parseFunding
    rw [lower.1.2]
    rfl
  have rebalance : parseRebalance retailConsole "rotate" = .ok .rotateAccounts := by
    unfold parseRebalance
    rw [lower.2]
    rfl
  have base : baseCfg 2 1 1 2 = .ok { oneDay with funding := none } := rfl
  have validated : Persona.retail.validate = .ok () := by decide +kernel
  have loaded : loadPersonas retailConsole.fs retailConsole.fromTomlStr ⟨["retail.toml"], none⟩ =
      .ok [Persona.retail] := by
    obtain ⟨names, passed⟩ := (checkPersonas_passes [Persona.retail] BTreeMap.empty).mpr
      ⟨List.forall_mem_singleton.mpr validated, List.nodup_singleton _,
        fun _ _ => List.not_mem_nil⟩
    have read : personasOf retailConsole.fs retailConsole.fromTomlStr ["retail.toml"] =
        .ok [Persona.retail] :=
      personasOf_eq_ok.mpr (Or.inr ⟨List.cons_ne_nil _ _,
        List.Forall₂.cons ⟨_, rfl, rfl, validated⟩ List.Forall₂.nil⟩)
    unfold loadPersonas
    simp only [except_bind_eq_ok, pathsOf_eq_ok]
    exact ⟨_, Or.inl ⟨rfl, rfl⟩, _, read, _, passed, rfl⟩
  unfold prepare
  simp only [except_bind_eq_ok, ofText_eq_ok]
  exact ⟨_, mode, _, funding, _, base, _, rebalance, _, loaded, rfl⟩

/-- The day of the two retail users is dumped and reported on. -/
theorem dump_reported_retail : ∃ (ledger : Ledger) (text : String),
    @simulate steppedLibm Counter _ (retailBounds.wakes oneDay + 1) [Persona.retail] oneDay =
      .returned ledger ∧
    @Dumps retailConsole Counter _ steppedLibm retailArgs (utf8 text) ledger.records.length ∧
    ∃ reported : Report, reported.windowSecs = 120 ∧
      ∀ (fs : FileSystem) (path : String), fs.readToString path = .ok text → ∀ order,
        report fs parseLedger order path true = .ok reported := by
  obtain ⟨ledger, text, simulated, dumps, reports⟩ :=
    @dump_reported retailConsole Counter _ steppedLibm retailBounds retailArgs _ _ parseLedger
      steppedLibm_bounded retailArgs_prepared oneDay_capacity (by decide) (by decide)
    (fun _ ledger _ => ⟨ledgerText ledger, rfl, parseLedger_ledgerText ledger⟩)
  obtain ⟨reported, _, window, same⟩ := reports true
  exact ⟨ledger, text, simulated _ (Nat.lt_succ_self _), dumps, reported, window, same⟩

/-! ### Prices -/

section Prices

variable {ledger : Ledger} {lamportsPerSignature : Nat} {fromU128 : Nat → Option Nat}

end Prices

/-! ### The price of a run -/

section Runs

/-- A record takes one signature, and another if somebody else pays for it. -/
theorem sum_signatures (records : List TxRecord) : (records.map TxRecord.signatures).sum =
    records.length + (records.filter fun record => record.feePayer ≠ record.source).length := by
  induction records with
  | nil => rfl
  | cons record rest inductionHypothesis =>
    rw [List.map_cons, List.sum_cons, inductionHypothesis, List.length_cons, List.filter_cons]
    unfold TxRecord.signatures
    by_cases own : record.feePayer = record.source
    · rw [if_pos own, if_neg (by simpa using own)]
      omega
    · rw [if_neg own, if_pos (by simpa using own), List.length_cons]
      omega

/-- A run is topped up once for each record, and a top-up takes one signature. -/
theorem FundedRun.topUps {cfg : SimConfig} {fcfg : FundingConfig} {externals : List AccountId}
    {owner : AccountId → Option AgentId} {view : View}
    {assigned : List AccountId × BTreeMap AgentId (AccountId × Option AgentId)}
    {wallets : List AccountId} {suffix : List TxRecord}
    (run : FundedRun cfg fcfg externals owner view assigned wallets suffix) :
    suffix.length = view.chain.ledger.records.length ∧
      (suffix.map TxRecord.signatures).sum = suffix.length := by
  have payers : (view.chain.ledger.records.map (·.feePayer)).Nodup :=
    List.pairwise_map.mpr run.throwaways.apart
  have same : (suffix.map (·.dest)).Perm (view.chain.ledger.records.map (·.feePayer)) := by
    refine (List.perm_ext_iff_of_nodup run.appended.once payers).mpr (fun account => ?_)
    rw [List.mem_map, List.mem_map]
    constructor
    · rintro ⟨event, member, rfl⟩
      obtain ⟨record, inBase, tops⟩ := run.appended.each event member
      exact ⟨record, inBase, tops.dest.symm⟩
    · rintro ⟨record, member, rfl⟩
      obtain ⟨event, inSuffix, tops⟩ := run.appended.all record member
      exact ⟨event, inSuffix, tops.dest⟩
  have lengths := same.length_eq
  rw [List.length_map, List.length_map] at lengths
  have none : (suffix.filter fun event => event.feePayer ≠ event.source) = [] := by
    refine List.filter_eq_nil_iff.mpr (fun event member => ?_)
    obtain ⟨_, _, tops⟩ := run.appended.each event member
    simpa using tops.payer
  rw [sum_signatures, none]
  exact ⟨lengths, rfl⟩

/-- A naive run pays for a record from the main account of its operator, so one that this account
signs takes one signature. -/
theorem Sponsored.signatures {view : View} (sponsored : Sponsored view) :
    (view.chain.ledger.records.map TxRecord.signatures).sum =
      view.chain.ledger.records.length + (view.chain.ledger.records.filter fun record =>
        record.operator.bind (hubsOf view.agents).get? ≠ some record.source).length := by
  rw [sum_signatures]
  congr 2
  refine List.filter_congr (fun record member => ?_)
  obtain ⟨index, agent, found, operator, payer, _⟩ := sponsored.records record member
  rw [operator, payer, Option.bind_some, hubsOf_get? sponsored.agents, found, Option.map_some]
  simp

variable {Generator : Type} [Rng Generator] [Libm]

end Runs

end AccountCooker
