/-
This file models the two commands that simulate a fleet and write its ledger to
a file: `dump`, which simulates it in one go, and `run`, which goes through a
run directory, where it can be killed and asked to resume.

Both read the same arguments into the same personas and the same configuration.
Loading has checked that every float of the personas is finite, so the inputs of
different runs are told apart by their digests. What a `run` writes, whatever
other runs were killed on its directory before, is what `dump` writes.
-/

import Mathlib
import AccountCooker.Loader
import AccountCooker.Recovery
import AccountCooker.Horizon

namespace Crash

/-! ### A computation on a part of the state -/

section Parts

variable {Outer State Failure Other Result : Type}

/-- Run a computation on a part of the state. -/
def Persistent.on (part : Outer → State) (put : State → Outer → Outer) (adapt : Failure → Other)
    (program : Persistent State Failure Result) : Persistent Outer Other Result :=
  fun outer =>
    ⟨(program (part outer)).passed.map (put · outer),
      (program (part outer)).outcome.mapError adapt, put (program (part outer)).final outer⟩

variable {part : Outer → State} {put : State → Outer → Outer} {adapt : Failure → Other}
  {program : Persistent State Failure Result}

/-- The instants are those of the computation, put into the whole. -/
theorem instants_on (outer : Outer) : (Persistent.on part put adapt program outer).instants =
    (program (part outer)).instants.map (put · outer) := by
  show _ ++ [_] = _
  rw [Trail.instants, List.map_append]
  rfl

theorem meets_on {safe : State → Prop} {failed : Failure → Prop} {done : Result → State → Prop}
    {wide : Outer → Prop} {wideFailed : Other → Prop} {wideDone : Result → Outer → Prop}
    {outer : Outer} (meets : Meets safe failed done program (part outer))
    (safely : ∀ inner, safe inner → wide (put inner outer))
    (failures : ∀ failure, failed failure → wideFailed (adapt failure))
    (results : ∀ result inner, safe inner → done result inner →
      wideDone result (put inner outer)) :
    Meets wide wideFailed wideDone (Persistent.on part put adapt program) outer where
  safe instant member := by
    rw [instants_on] at member
    obtain ⟨inner, reached, rfl⟩ := List.mem_map.mp member
    exact safely inner (meets.safe inner reached)
  failed other stopped := by
    obtain ⟨failure, ended, rfl⟩ : ∃ failure, (program (part outer)).outcome = .error failure ∧
        adapt failure = other := by
      unfold Persistent.on at stopped
      cases ended : (program (part outer)).outcome with
      | error failure =>
        rw [ended] at stopped
        exact ⟨failure, rfl, Except.error.inj stopped⟩
      | ok result =>
        rw [ended] at stopped
        cases stopped
    exact failures failure (meets.failed failure ended)
  done result returned := by
    have ended : (program (part outer)).outcome = .ok result := by
      unfold Persistent.on at returned
      cases ended : (program (part outer)).outcome with
      | error failure =>
        rw [ended] at returned
        cases returned
      | ok other =>
        rw [ended] at returned
        rw [Except.ok.inj returned]
    exact results result _ meets.final (meets.done result ended)

end Parts

end Crash

namespace AccountCooker

open Collections Crash

/-! ### Arguments -/

/-- What a command finds around it: the file system, the libraries that read a persona and write a
ledger, and the lower-case form of a text. -/
structure Console where
  fs : FileSystem
  fromTomlStr : String → Except String Persona
  toStringPretty : Ledger → Bytes
  toLowercase : String → String

/-- The arguments of a fleet. -/
structure FleetArgs where
  mode : String
  agents : Nat
  days : Int
  seed : Nat
  external : Nat
  funding : String
  relayers : Nat
  rebalance : String
  personas : PersonaFiles

section Arguments

variable (console : Console)

/-- Parse a `--funding` value into an optional policy; `off` models no funding. -/
def parseFunding (kind : String) (relayers : Nat) : Except ErrorChain (Option FundingConfig) :=
  let kind := console.toLowercase kind
  if kind = "off" then .ok none
  else if kind = "hub" then .ok (some (.new .operatorHub))
  else if kind = "dedicated" then .ok (some (.new .dedicatedFunder))
  else if kind = "relayers" then .ok (some (.new (.sharedRelayers (max relayers 1))))
  else .error ["unknown --funding '" ++ kind ++ "' (off|hub|dedicated|relayers)"]

def parseRebalance (kind : String) : Except ErrorChain RebalanceStrategy :=
  let kind := console.toLowercase kind
  if kind = "rotate" ∨ kind = "rotate-accounts" then .ok .rotateAccounts
  else if kind = "hub" ∨ kind = "direct-hub" then .ok .directHub
  else .error ["unknown --rebalance '" ++ kind ++ "' (rotate|hub)"]

def parseMode (kind : String) : Except ErrorChain Mode :=
  let kind := console.toLowercase kind
  if kind = "naive" then .ok .naive
  else if kind = "cooker" then .ok .cooker
  else .error ["unknown --mode '" ++ kind ++ "' (naive|cooker)"]

/-- The configuration of the arguments, and the personas of their files. -/
def prepare (args : FleetArgs) : Except ErrorChain (List Persona × SimConfig) := do
  let mode ← parseMode console args.mode
  let funding ← parseFunding console args.funding args.relayers
  let base ← ofText (baseCfg args.agents args.days args.seed args.external)
  let rebalance ← parseRebalance console args.rebalance
  let personas ← loadPersonas console.fs console.fromTomlStr args.personas
  .ok (personas, { base with
    mode := mode
    funding := funding
    hardening := { base.hardening with rebalance := rebalance } })

end Arguments

/-! ### Commands -/

/-- The files a command works on: those of the run directory, and the one it writes its ledger
to. That file is taken to be none of the run directory: an `--out` that names the journal, the
checkpoint or the temporary file is not modelled. -/
structure World where
  runDir : RunDir
  out : Option Bytes

/-- How a command stops short: with an error or with a panic. -/
inductive Exit
  | error (chain : ErrorChain)
  | panicked

abbrev Command := Persistent World Exit

/-- The `?` operator. -/
def orExit {Result : Type} : Except ErrorChain Result → Command Result
  | .ok result => pure result
  | .error chain => Persistent.fail (.error chain)

/-- A step on the run directory, whose errors get a context. -/
def onRunDir {Result : Type} (context : String) : Disk Result → Command Result :=
  Persistent.on World.runDir (fun dir world => { world with runDir := dir }) fun
    | .io error => .error [context, error.message]
    | .panicked => .panicked

/-- `std::fs::write` of the file for the ledger. -/
def writeOut (json : Bytes) : Command Unit :=
  Persistent.perform
    (fun world => json.inits.map fun reached => { world with out := some reached })
    ({ · with out := some json })

section Commands

variable (console : Console) (serde : Serde) (Generator : Type) [Rng Generator]
  [RngState Generator] [Libm]

/-- Write a ledger that was returned, and say how many records it has. -/
def writeLedger : Outcome Ledger → Command (Outcome Nat)
  | .returned ledger => do
    writeOut (console.toStringPretty ledger)
    pure (.returned ledger.records.length)
  | .panicked => Persistent.fail .panicked
  | .running => pure .running

/-- Simulate a fleet and write its ledger. -/
def dump (args : FleetArgs) (fuel : Nat) : Command (Outcome Nat) := do
  let (personas, cfg) ← orExit (prepare console args)
  writeLedger console (simulate Generator fuel personas cfg)

/-- A durable run as it is asked for on the command line. -/
structure Session where
  args : FleetArgs
  resume : Bool
  checkpointEvery : Nat
  fsync : Bool
  fuel : Nat

/-- The process of a session. -/
def Session.attempt (session : Session) : Except ErrorChain Attempt := do
  let (personas, cfg) ← prepare console session.args
  .ok ⟨personas, cfg, ⟨max session.checkpointEvery 1, session.fsync⟩, session.resume, session.fuel⟩

/-- Run a fleet on the run directory, resuming if asked to, and write its ledger. -/
def run (session : Session) : Command (Outcome Nat) := do
  let attempt ← orExit (session.attempt console)
  let found ← Persistent.inspect fun world : World => .ok world.runDir.checkpoint.isSome
  let context := if session.resume && found then "resuming durable run" else "durable run"
  let ledger ← onRunDir context (runDurable serde Generator attempt)
  writeLedger console ledger

end Commands

/-! ### The inputs of a run -/

theorem finite_of_validate {persona : Persona} (validated : persona.validate = .ok ()) :
    ∀ x ∈ persona.floats, x.isFinite = true := by
  unfold Persona.validate at validated
  simp only [bind_eq_ok, ensure_eq_ok, forM_eq_ok, validateWeight_eq_ok, Bool.and_eq_true,
    List.all_eq_true] at validated
  obtain ⟨_, _, _, ⟨sigma, _⟩, _, _, _, ⟨decoys, _⟩, _, ⟨rate, _⟩, ⟨jitter, _⟩, ⟨hours, _⟩, table,
    _⟩ := validated
  unfold Persona.floats CircadianModel.floats
  simp only [List.cons_append, List.forall_mem_cons, List.forall_mem_append]
  refine ⟨rate, jitter, fun weight member => (hours weight member).1, decoys, sigma, ?_⟩
  intro weight member
  obtain ⟨entry, inside, rfl⟩ := List.mem_map.mp member
  exact (table entry inside).2.1

theorem baseCfg_hardening {agents : Nat} {days : Int} {seed external : Nat} {base : SimConfig}
    (accepted : baseCfg agents days seed external = .ok base) : base.hardening = .default := by
  unfold baseCfg at accepted
  simp only [except_bind_eq_ok] at accepted
  obtain ⟨_, _, _, _, _, _, accepted⟩ := accepted
  split at accepted
  · rw [← Except.ok.inj accepted]
    rfl
  · cases accepted

section Inputs

variable {console : Console} {args : FleetArgs} {personas : List Persona} {cfg : SimConfig}

/-- What a command simulates has finite floats only. -/
theorem prepare_finite (prepared : prepare console args = .ok (personas, cfg)) :
    FiniteInputs personas cfg := by
  unfold prepare at prepared
  simp only [except_bind_eq_ok, ofText_eq_ok] at prepared
  obtain ⟨mode, _, funding, _, base, accepted, rebalance, _, loaded, found, same⟩ := prepared
  obtain ⟨rfl, rfl⟩ := Prod.mk.inj (Except.ok.inj same)
  refine ⟨fun persona member => finite_of_validate (loadPersonas_accepted found persona member), ?_⟩
  show ∀ x ∈ base.hardening.floats, x.isFinite = true
  rw [baseCfg_hardening accepted]
  decide +kernel

end Inputs

/-! ### What the commands write -/

section Writing

variable {console : Console} {serde : Serde} {Generator : Type} [Rng Generator]
  [RngState Generator] [Libm] {allowed : Session → Prop} {session : Session} {args : FleetArgs}
  {personas : List Persona} {cfg : SimConfig} {world : World} {out : Option Bytes}
  {ledger : Ledger} {tokens : Tokens}

variable (console Generator) in
/-- A dump of the fleet, given enough rounds, writes this text, and says it has so many records. -/
def Dumps (args : FleetArgs) (text : Bytes) (count : Nat) : Prop :=
  ∃ fuel, ∀ more, fuel ≤ more → ∀ world,
    (dump console Generator args more world).outcome = .ok (.returned count) ∧
      (dump console Generator args more world).final = { world with out := some text }

omit [RngState Generator] in
theorem dumps_of_simulate {fuel : Nat} (prepared : prepare console args = .ok (personas, cfg))
    (simulated : simulate Generator fuel personas cfg = .returned ledger) :
    Dumps console Generator args (console.toStringPretty ledger) ledger.records.length := by
  refine ⟨fuel, fun more longer world => ?_⟩
  have again : simulate Generator more personas cfg = .returned ledger :=
    (simulate_ended (fun running => by cases simulated.symm.trans running) longer).trans simulated
  unfold dump
  rw [prepared]
  have first : ((orExit (.ok (personas, cfg)) : Command (List Persona × SimConfig)) world).outcome =
      .ok (personas, cfg) := rfl
  rw [(bind_ok first).1, (bind_ok first).2]
  dsimp only
  rw [again]
  exact ⟨rfl, rfl⟩

omit [Libm] in
theorem attempt_eq_ok {attempt : Attempt} (parsed : session.attempt console = .ok attempt) :
    prepare console session.args = .ok (attempt.personas, attempt.cfg) := by
  unfold Session.attempt at parsed
  obtain ⟨⟨personas, cfg⟩, prepared, same⟩ := except_bind_eq_ok.mp parsed
  rw [prepared, ← Except.ok.inj same]

variable (console allowed) in
/-- The processes of some sessions. -/
def Attempts (attempt : Attempt) : Prop :=
  ∃ session, allowed session ∧ session.attempt console = .ok attempt

omit [Libm] in
/-- The command line accepts no float that is not finite, so its texts tell its inputs apart. -/
theorem attempts_apart (distinct : tokens.Distinct) (writes : serde.Writes tokens) :
    ToldApart serde (Attempts console allowed) := by
  refine toldApart_of_finite distinct writes ?_
  rintro attempt ⟨session, _, parsed⟩
  exact prepare_finite (attempt_eq_ok parsed)

variable (console serde Generator) in
/-- The worlds found after sessions, each on what the one before it left and each killed in any of
its instants. -/
def Sessions (allowed : Session → Prop) (out : Option Bytes) : World → Prop :=
  History allowed (fun session world => (run console serde Generator session world).instants)
    ⟨RunDir.empty, out⟩

variable (console serde Generator allowed) in
/-- What an instant of a session shows: a run directory that processes of sessions can leave, and
the file for the ledger as it was, or a beginning of what a dump writes. -/
structure Shows (session : Session) (world instant : World) : Prop where
  found : Found serde Generator (Attempts console allowed) instant.runDir
  out : instant.out = world.out ∨ ∃ text count reached,
    Dumps console Generator session.args text count ∧ reached <+: text ∧
      instant.out = some reached

/-- What is written when a ledger has been returned. -/
theorem meets_writeLedger {result : Outcome Ledger} {start : World}
    (shows : Shows console serde Generator allowed session start world)
    (dumped : ∀ ledger, result = .returned ledger → Dumps console Generator session.args
      (console.toStringPretty ledger) ledger.records.length) :
    Meets (Shows console serde Generator allowed session start) (fun _ => True)
      (fun written final => ∀ count, written = .returned count →
        ∃ text, Dumps console Generator session.args text count ∧ final.out = some text)
      (writeLedger console result) world := by
  cases result with
  | panicked => exact meets_fail shows trivial
  | running => exact meets_pure shows fun _ impossible => by cases impossible
  | returned ledger =>
    have dump := dumped ledger rfl
    have begun {reached : Bytes} (within : reached <+: console.toStringPretty ledger) :
        Shows console serde Generator allowed session start
          { world with out := some reached } :=
      ⟨shows.found, Or.inr ⟨_, _, reached, dump, within, rfl⟩⟩
    refine meets_bind (meets_perform shows (fun instant inside => ?_) (begun List.prefix_rfl) ?_)
    · obtain ⟨reached, among, rfl⟩ := List.mem_map.mp inside
      exact begun ((List.mem_inits reached _).mp among)
    · refine meets_pure (begun List.prefix_rfl) fun count same => ?_
      rw [← Outcome.returned.inj same]
      exact ⟨_, dump, rfl⟩

theorem meets_session (decodes : serde.Decodes) (distinct : tokens.Distinct)
    (writes : serde.Writes tokens) (noCollision : NoCollision serde (Attempts console allowed))
    (permitted : allowed session)
    (found : Found serde Generator (Attempts console allowed) world.runDir) :
    Meets (Shows console serde Generator allowed session world) (fun _ => True)
      (fun written final => ∀ count, written = .returned count →
        ∃ text, Dumps console Generator session.args text count ∧ final.out = some text)
      (run console serde Generator session) world := by
  have shows : Shows console serde Generator allowed session world world := ⟨found, Or.inl rfl⟩
  unfold run
  cases parsed : session.attempt console with
  | error chain => exact meets_bind (meets_fail shows trivial)
  | ok attempt =>
    have apart : ToldApart serde (Attempts console allowed) := attempts_apart distinct writes
    have among : Attempts console allowed attempt := ⟨session, permitted, parsed⟩
    refine meets_bind (meets_pure shows ?_)
    refine meets_bind (meets_inspect shows (fun _ stopped => by cases stopped) fun _ _ => ?_)
    have meets := meets_runDurable decodes noCollision apart among
      (found.committed decodes noCollision apart)
    have process : Meets (Found serde Generator (Attempts console allowed)) (fun _ => True)
        (fun result _ => ∃ events, result =
          simulate Generator (events + attempt.fuel) attempt.personas attempt.cfg)
        (runDurable serde Generator attempt) world.runDir :=
      ⟨fun cut reached => .run _ cut attempt found among reached, fun _ _ => trivial, meets.done⟩
    have durable (context : String) :
        Meets (Shows console serde Generator allowed session world) (fun _ => True)
          (fun result _ => ∃ events, result =
            simulate Generator (events + attempt.fuel) attempt.personas attempt.cfg)
          (onRunDir context (runDurable serde Generator attempt)) world :=
      meets_on process (fun inner reached => ⟨reached, Or.inl rfl⟩) (fun _ _ => trivial)
        (fun _ _ _ simulated => simulated)
    refine meets_then (durable _) ?_
    rintro result middle shows ⟨events, simulated⟩
    refine meets_writeLedger shows fun ledger same => ?_
    rw [same] at simulated
    exact dumps_of_simulate (attempt_eq_ok parsed) simulated.symm

/-- The run directory of a world found after sessions is one that their processes leave. -/
theorem Sessions.found (decodes : serde.Decodes) (distinct : tokens.Distinct)
    (writes : serde.Writes tokens) (noCollision : NoCollision serde (Attempts console allowed))
    (sessions : Sessions console serde Generator allowed out world) :
    Found serde Generator (Attempts console allowed) world.runDir := by
  induction sessions with
  | start => exact .start
  | run before cut session _ permitted reached inductionHypothesis =>
    exact ((meets_session decodes distinct writes noCollision permitted inductionHypothesis).safe
      cut reached).found

/-- Whatever sessions ran on the run directory before and wherever they were killed: a session
writes, byte for byte, what a dump of its fleet writes, and says the same number of records. In
every instant of it the file is as it was or holds a beginning of that. -/
theorem run_writes_dump (decodes : serde.Decodes) (distinct : tokens.Distinct)
    (writes : serde.Writes tokens) (noCollision : NoCollision serde (Attempts console allowed))
    (sessions : Sessions console serde Generator allowed out world) (permitted : allowed session) :
    (∀ count, (run console serde Generator session world).outcome = .ok (.returned count) →
      ∃ text, Dumps console Generator session.args text count ∧
        (run console serde Generator session world).final.out = some text) ∧
    ∀ instant ∈ (run console serde Generator session world).instants,
      instant.out = world.out ∨ ∃ text count reached,
        Dumps console Generator session.args text count ∧ reached <+: text ∧
          instant.out = some reached := by
  have meets := meets_session decodes distinct writes noCollision permitted
    (sessions.found decodes distinct writes noCollision)
  exact ⟨fun count ended => meets.done _ ended count rfl,
    fun instant reached => (meets.safe instant reached).out⟩

/-- A session with as many rounds as its simulation needs exits, when the checkpoint it finds is of
its own run and no wake is due at the placeholder time. -/
theorem run_returns (decodes : serde.Decodes) (distinct : tokens.Distinct)
    (writes : serde.Writes tokens) (noCollision : NoCollision serde (Attempts console allowed))
    (sessions : Sessions console serde Generator allowed out world) (permitted : allowed session)
    (prepared : prepare console session.args = .ok (personas, cfg))
    (own : ∀ cp, world.runDir.checkpoint = some (serde.checkpointText cp) →
      cp.runId = RunId.derive serde personas cfg)
    (timed : ∀ events, ∀ st : RunState Generator,
      boundaryAt Generator personas cfg events = some st → ∀ due ∈ st.heap, due.1 ≠ i64Min)
    {fuel : Nat} (enough : fuel ≤ session.fuel)
    (simulated : simulate Generator fuel personas cfg = .returned ledger) :
    (run console serde Generator session world).outcome =
      .ok (.returned ledger.records.length) := by
  have parsed : session.attempt console = .ok ⟨personas, cfg,
      ⟨max session.checkpointEvery 1, session.fsync⟩, session.resume, session.fuel⟩ := by
    unfold Session.attempt
    rw [prepared]
    rfl
  have returned := runDurable_returns decodes noCollision (attempts_apart distinct writes)
    (sessions.found decodes distinct writes noCollision) ⟨session, permitted, parsed⟩
    (fun _ => own) timed enough simulated
  have durable (context : String) :
      (onRunDir context (runDurable serde Generator ⟨personas, cfg,
        ⟨max session.checkpointEvery 1, session.fsync⟩, session.resume, session.fuel⟩)
        world).outcome = .ok (.returned ledger) := by
    show Except.mapError _ _ = _
    rw [returned]
    rfl
  have read : ((orExit (session.attempt console) : Command Attempt) world).outcome = .ok ⟨personas,
      cfg, ⟨max session.checkpointEvery 1, session.fsync⟩, session.resume, session.fuel⟩ := by
    rw [parsed]
    rfl
  have left : ((orExit (session.attempt console) : Command Attempt) world).final = world := by
    rw [parsed]
    rfl
  unfold run
  rw [(bind_ok read).1, left]
  have found : (Persistent.inspect (fun world : World => .ok world.runDir.checkpoint.isSome) :
      Command Bool) world = ⟨[], .ok world.runDir.checkpoint.isSome, world⟩ := rfl
  rw [(bind_ok (congrArg Trail.outcome found)).1, found, (bind_ok (durable _)).1]
  rfl

end Writing

/-! ### A killed session -/

/-- A console without persona files. -/
def bareConsole : Console where
  fs := ⟨fun _ => .error fileNotFound, fun _ => .error fileNotFound⟩
  fromTomlStr _ := .error "expected a table"
  toStringPretty ledger := journalOf directorySerde ledger.records
  toLowercase := String.toLower

/-- One funded agent for a day. -/
def bareArgs : FleetArgs := ⟨"Cooker", 1, 1, 1, 1, "hub", 0, "rotate", ⟨[], none⟩⟩

/-- A session that stops after two events. -/
def killedSession : Session := ⟨bareArgs, false, 1, true, 2⟩

/-- What it leaves behind. -/
def killedWorld : World :=
  (run bareConsole directorySerde Counter killedSession ⟨RunDir.empty, none⟩).final

/-- A session that goes on there, with another cadence. -/
def resumedSession : Session := ⟨bareArgs, true, 1000, true, 30⟩

/-- The sessions of that fleet. -/
def OfBareArgs (session : Session) : Prop := session.args = bareArgs

/-- Sessions of one fleet have the inputs of one run. -/
theorem bareArgs_noCollision : NoCollision directorySerde (Attempts bareConsole OfBareArgs) := by
  rintro first second ⟨session, same, parsed⟩ ⟨other, same', parsed'⟩ _
  have prepared := attempt_eq_ok parsed
  have prepared' := attempt_eq_ok parsed'
  rw [same] at prepared
  rw [same'] at prepared'
  obtain ⟨personas, cfg⟩ := Prod.mk.inj (Except.ok.inj (prepared.symm.trans prepared'))
  rw [personas, cfg]

/-- The fleet is simulated with five rounds, and no wake is due at the placeholder time. -/
theorem bareArgs_simulated : ((prepare bareConsole bareArgs).toOption.any fun inputs =>
    ((simulate Counter 5 inputs.1 inputs.2).result?.any fun ledger => ledger.records.length = 16) &&
      (boundaryAt Counter inputs.1 inputs.2 5).isNone &&
      (List.range 5).all fun events => (boundaryAt Counter inputs.1 inputs.2 events).all fun st =>
        st.heap.all fun due => decide (due.1 ≠ i64Min)) = true := by
  decide +kernel

/-- The session after the killed one writes what a dump writes. -/
theorem run_writes_dump_killed : ∃ text, Dumps bareConsole Counter bareArgs text 16 ∧
    (run bareConsole directorySerde Counter resumedSession killedWorld).final.out = some text := by
  have sessions : Sessions bareConsole directorySerde Counter OfBareArgs none killedWorld :=
    History.run _ killedWorld killedSession .start rfl
      (List.mem_append_right _ List.mem_cons_self)
  obtain ⟨⟨personas, cfg⟩, read, facts⟩ := (Option.any_eq_true _ _).mp bareArgs_simulated
  have prepared : prepare bareConsole bareArgs = .ok (personas, cfg) := by
    cases done : prepare bareConsole bareArgs with
    | error chain =>
      rw [done] at read
      cases read
    | ok inputs =>
      rw [done] at read
      exact congrArg Except.ok (Option.some.inj read)
  simp only [Bool.and_eq_true, Option.isNone_iff_eq_none, List.all_eq_true, List.mem_range] at facts
  obtain ⟨⟨simulated, last⟩, before⟩ := facts
  obtain ⟨ledger, returned, counted⟩ := (Option.any_eq_true _ _).mp simulated
  have timed (events : Nat) (st : RunState Counter)
      (found : boundaryAt Counter personas cfg events = some st) :
      ∀ due ∈ st.heap, due.1 ≠ i64Min := by
    have early : events < 5 := by
      by_contra later
      cases (boundaryAt_none last (Nat.le_of_not_lt later)).symm.trans found
    have here := before events early
    rw [found, Option.all_some] at here
    exact fun due member => of_decide_eq_true (List.all_eq_true.mp here due member)
  have committed := (sessions.found directorySerde_decodes plainTokens_distinct
    directorySerde_writes bareArgs_noCollision).committed directorySerde_decodes
    bareArgs_noCollision (attempts_apart plainTokens_distinct directorySerde_writes)
  have own (cp : Checkpoint)
      (present : killedWorld.runDir.checkpoint = some (directorySerde.checkpointText cp)) :
      cp.runId = RunId.derive directorySerde personas cfg := by
    obtain ⟨attempt, other, st, journal, ⟨session, ofArgs, parsed⟩, same, _, commitment⟩ :=
      committed _ present
    have parsed' := directorySerde_decodes.checkpoint cp
    rw [same, directorySerde_decodes.checkpoint other] at parsed'
    have again := attempt_eq_ok parsed
    rw [show session.args = bareArgs from ofArgs, prepared] at again
    obtain ⟨rfl, rfl⟩ := Prod.mk.inj (Except.ok.inj again)
    rw [← Except.ok.inj parsed', commitment.runId]
  have exited := run_returns directorySerde_decodes plainTokens_distinct directorySerde_writes
    bareArgs_noCollision sessions (rfl : OfBareArgs resumedSession) prepared own timed
    (by decide : 5 ≤ resumedSession.fuel) (Outcome.result?_eq_some.mp returned)
  rw [of_decide_eq_true counted] at exited
  exact (run_writes_dump directorySerde_decodes plainTokens_distinct directorySerde_writes
    bareArgs_noCollision sessions (rfl : OfBareArgs resumedSession)).1 16 exited

end AccountCooker
