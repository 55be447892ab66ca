/-
This file proves that rotation is one-to-one and final. A rotation puts a fresh
account in the place of an old one, so that the accounts held by all agents stay
distinct; the old account is retired, and no agent holds it ever again. Since
only held accounts sign, and since every other record pays an external account
or pays nothing to itself, the rotations of a run form disjoint chains of
predecessors and successors.

The invariant joins the account tables of the present with the records of the
past. It rests on the identifiers drawn being pairwise distinct: then what is
drawn for a record is mentioned nowhere before it.
-/

import Mathlib
import AccountCooker.ChainOrder

namespace AccountCooker

open Collections

/-! ### Held accounts -/

/-- The sub-accounts of all agents. -/
def held (agents : List Agent) : List AccountId := agents.flatMap (·.subaccounts)

theorem mem_held {agents : List Agent} {index : Nat} {agent : Agent} {account : AccountId}
    (found : agents[index]? = some agent) (own : account ∈ agent.subaccounts) :
    account ∈ held agents :=
  List.mem_flatMap.mpr ⟨agent, List.mem_of_getElem? found, own⟩

theorem exists_append_of_getElem? {Item : Type} {items : List Item} {index : Nat} {item : Item}
    (found : items[index]? = some item) :
    ∃ left right, items = left ++ item :: right ∧
      ∀ other, items.set index other = left ++ other :: right := by
  obtain ⟨bound, equal⟩ := List.getElem?_eq_some_iff.mp found
  refine ⟨items.take index, items.drop (index + 1), ?_, fun other => ?_⟩
  · rw [← equal, List.getElem_cons_drop, List.take_append_drop]
  · rw [List.set_eq_take_append_cons_drop, if_pos bound]

/-- Replacing one account of one agent replaces it among all that are held. -/
theorem held_replace {agents : List Agent} {index : Nat} {agent : Agent} {subIdx : Nat}
    {source : AccountId} (found : agents[index]? = some agent)
    (at_source : agent.subaccounts[subIdx]? = some source) (successor : AccountId) :
    ∃ left right, held agents = left ++ source :: right ∧
      held (agents.set index
        { agent with subaccounts := agent.subaccounts.set subIdx successor }) =
          left ++ successor :: right := by
  obtain ⟨before, after, split, replaced⟩ := exists_append_of_getElem? found
  obtain ⟨left, right, subSplit, subReplaced⟩ := exists_append_of_getElem? at_source
  refine ⟨held before ++ left, right ++ held after, ?_, ?_⟩
  · rw [split]
    unfold held
    rw [List.flatMap_append, List.flatMap_cons, subSplit]
    simp only [List.append_assoc, List.cons_append]
  · rw [replaced]
    unfold held
    rw [List.flatMap_append, List.flatMap_cons]
    simp only [subReplaced, List.append_assoc, List.cons_append]

/-! ### The invariant -/

/-- A record moves an account into a successor: it pays neither itself nor an external. -/
def Rotation (externals : List AccountId) (record : TxRecord) : Prop :=
  record.dest ≠ record.source ∧ record.dest ∉ externals

/-- An account has been rotated out. -/
def Retired (externals : List AccountId) (records : List TxRecord) (account : AccountId) : Prop :=
  ∃ record ∈ records, Rotation externals record ∧ record.source = account

/-- After a rotation, neither the signer nor the payee of a record is the retired account. -/
def Final (externals : List AccountId) (first second : TxRecord) : Prop :=
  Rotation externals first → second.source ≠ first.source ∧ second.dest ≠ first.source

/-- The successor of a rotation occurs in no record before it. -/
def FreshSuccessor (externals : List AccountId) (first second : TxRecord) : Prop :=
  Rotation externals second → ¬ Ledger.Mentions first second.dest

/-- The account tables of a rotating run and its records. -/
structure Lineage (externals : List AccountId) (view : View) : Prop where
  agents : ∀ index agent, view.agents[index]? = some agent → BuiltAgent index agent
  distinct : (externals ++ held view.agents).Nodup
  known : ∀ account ∈ externals ++ held view.agents, account ∈ view.drawn
  mentioned : ∀ record ∈ view.chain.ledger.records, ∀ account,
    Ledger.Mentions record account → account ∈ view.drawn
  outward : ∀ record ∈ view.chain.ledger.records,
    Rotation externals record ∧ 1 ≤ record.amount ∨ record.dest ∈ externals ∨
      record.dest = record.source ∧ record.amount = 0
  sources : ∀ record ∈ view.chain.ledger.records,
    record.source ∈ held view.agents ∨
      Retired externals view.chain.ledger.records record.source
  retired : ∀ account, Retired externals view.chain.ledger.records account →
    account ∉ externals ++ held view.agents
  final : view.chain.ledger.records.Pairwise (Final externals)
  fresh : view.chain.ledger.records.Pairwise (FreshSuccessor externals)

theorem Retired.append {externals : List AccountId} {records : List TxRecord} {record : TxRecord}
    {account : AccountId} : Retired externals (records ++ [record]) account ↔
      Retired externals records account ∨ Rotation externals record ∧ record.source = account := by
  unfold Retired
  simp only [List.mem_append, List.mem_singleton, or_and_right, exists_or, exists_eq_left]

section Records

variable {externals : List AccountId} {agents : List Agent} {chain recorded : MockChain}
  {drawn : List AccountId} {record : TxRecord}

/-- A record that is no rotation keeps the invariant: held accounts are not retired. -/
theorem Lineage.payment (lineage : Lineage externals ⟨agents, chain, drawn⟩)
    (appended : recorded.ledger.records = chain.ledger.records ++ [record])
    (own : record.source ∈ held agents)
    (outward : record.dest ∈ externals ∨ record.dest = record.source ∧ record.amount = 0) :
    Lineage externals ⟨agents, recorded, drawn ++ [record.feePayer]⟩ := by
  have still : ¬ Rotation externals record := fun rotation =>
    outward.elim rotation.2 (fun back => rotation.1 back.1)
  have retired (account : AccountId) : Retired externals recorded.ledger.records account ↔
      Retired externals chain.ledger.records account := by
    rw [appended, Retired.append]
    exact or_iff_left (fun both => still both.1)
  have known : record.source ∈ drawn :=
    lineage.known _ (List.mem_append_right _ own)
  have paid : record.dest ∈ externals ++ held agents := by
    rcases outward with external | back
    · exact List.mem_append_left _ external
    · rw [back.1]
      exact List.mem_append_right _ own
  refine ⟨lineage.agents, lineage.distinct,
    fun account member => List.mem_append_left _ (lineage.known account member), ?_, ?_, ?_,
    fun account gone => lineage.retired account ((retired account).mp gone), ?_, ?_⟩
  · intro other member account mention
    rw [appended] at member
    rcases List.mem_append.mp member with old | new
    · exact List.mem_append_left _ (lineage.mentioned other old account mention)
    · rw [List.mem_singleton.mp new] at mention
      rcases mention with rfl | rfl | rfl
      · exact List.mem_append_right _ List.mem_cons_self
      · exact List.mem_append_left _ known
      · exact List.mem_append_left _ (lineage.known _ paid)
  · intro other member
    rw [appended] at member
    rcases List.mem_append.mp member with old | new
    · exact lineage.outward other old
    · rw [List.mem_singleton.mp new]
      exact Or.inr outward
  · intro other member
    rw [retired]
    rw [appended] at member
    rcases List.mem_append.mp member with old | new
    · exact lineage.sources other old
    · rw [List.mem_singleton.mp new]
      exact Or.inl own
  · rw [appended]
    refine pairwise_concat lineage.final (fun first member rotation => ?_)
    have gone := lineage.retired first.source ⟨first, member, rotation, rfl⟩
    refine ⟨fun equal => gone ?_, fun equal => gone ?_⟩
    · rw [← equal]
      exact List.mem_append_right _ own
    · rw [← equal]
      exact paid
  · rw [appended]
    exact pairwise_concat lineage.fresh
      (fun first _ rotation => absurd rotation still)

/-- A rotation into a fresh successor keeps the invariant: the source is held by nobody after
it. -/
theorem Lineage.rotate {index subIdx : Nat} {agent : Agent}
    (lineage : Lineage externals ⟨agents, chain, drawn⟩)
    (found : agents[index]? = some agent) (operational : 0 < subIdx)
    (atSource : agent.subaccounts[subIdx]? = some record.source)
    (positive : 1 ≤ record.amount)
    (distinct : (drawn ++ [record.dest, record.feePayer]).Nodup)
    (appended : recorded.ledger.records = chain.ledger.records ++ [record]) :
    Lineage externals ⟨agents.set index
      { agent with subaccounts := agent.subaccounts.set subIdx record.dest }, recorded,
        drawn ++ [record.dest, record.feePayer]⟩ := by
  obtain ⟨left, right, before, after⟩ := held_replace found atSource record.dest
  have unknown : record.dest ∉ drawn := fun member =>
    (List.nodup_append.mp distinct).2.2 _ member _ List.mem_cons_self rfl
  have unheld : record.dest ∉ externals ++ held agents := fun member =>
    unknown (lineage.known _ member)
  have own : record.source ∈ held agents := mem_held found (List.mem_of_getElem? atSource)
  have rotation : Rotation externals record := by
    refine ⟨fun equal => unheld ?_, fun external => unheld (List.mem_append_left _ external)⟩
    rw [equal]
    exact List.mem_append_right _ own
  -- Among the held accounts, the successor stands where the source stood.
  have distinctBefore := lineage.distinct
  rw [before, ← List.append_assoc, List.nodup_middle, List.nodup_cons] at distinctBefore
  rw [before, ← List.append_assoc, List.mem_append, List.mem_cons, ← or_assoc] at unheld
  have members (account : AccountId)
      (member : account ∈ externals ++ (left ++ record.dest :: right)) :
      account = record.dest ∨ account ≠ record.source ∧ account ∈ externals ++ held agents := by
    rw [← List.append_assoc, List.mem_append, List.mem_cons, or_left_comm] at member
    refine member.imp_right (fun old => ⟨?_, ?_⟩)
    · rintro rfl
      exact distinctBefore.1 (List.mem_append.mpr old)
    · rw [before, ← List.append_assoc, List.mem_append, List.mem_cons]
      exact old.imp_right Or.inr
  have kept (account : AccountId) (member : account ∈ held agents)
      (other : account ≠ record.source) :
      account ∈ left ++ record.dest :: right := by
    rw [before, List.mem_append, List.mem_cons] at member
    rw [List.mem_append, List.mem_cons]
    exact member.imp_right (fun either => Or.inr (either.resolve_left other))
  have known : record.source ∈ drawn := lineage.known _ (List.mem_append_right _ own)
  have retired (account : AccountId) : Retired externals recorded.ledger.records account ↔
      Retired externals chain.ledger.records account ∨ record.source = account := by
    rw [appended, Retired.append]
    exact or_congr_right (and_iff_right rotation)
  refine ⟨?_, ?_, ?_, ?_, ?_, ?_, ?_, ?_, ?_⟩
  · intro other next atOther
    by_cases same : index = other
    · subst same
      rw [List.getElem?_set_self (List.getElem?_eq_some_iff.mp found).1] at atOther
      rw [← Option.some.inj atOther]
      refine ⟨(lineage.agents index agent found).id, ?_⟩
      rw [List.getElem?_set_ne operational.ne']
      exact (lineage.agents index agent found).main
    · rw [List.getElem?_set_ne same] at atOther
      exact lineage.agents other next atOther
  · rw [after, ← List.append_assoc, List.nodup_middle, List.nodup_cons]
    refine ⟨fun member => unheld ?_, distinctBefore.2⟩
    exact (List.mem_append.mp member).imp_left Or.inl
  · intro account member
    rw [after] at member
    rcases members account member with rfl | ⟨_, old⟩
    · exact List.mem_append_right _ List.mem_cons_self
    · exact List.mem_append_left _ (lineage.known account old)
  · intro other member account mention
    rw [appended] at member
    rcases List.mem_append.mp member with old | new
    · exact List.mem_append_left _ (lineage.mentioned other old account mention)
    · rw [List.mem_singleton.mp new] at mention
      rcases mention with rfl | rfl | rfl
      · exact List.mem_append_right _ (List.mem_cons_of_mem _ List.mem_cons_self)
      · exact List.mem_append_left _ known
      · exact List.mem_append_right _ List.mem_cons_self
  · intro other member
    rw [appended] at member
    rcases List.mem_append.mp member with old | new
    · exact lineage.outward other old
    · rw [List.mem_singleton.mp new]
      exact Or.inl ⟨rotation, positive⟩
  · intro other member
    rw [after, retired]
    rw [appended] at member
    rcases List.mem_append.mp member with old | new
    · by_cases same : record.source = other.source
      · exact Or.inr (Or.inr same)
      · exact (lineage.sources other old).imp (fun holds => kept _ holds (Ne.symm same)) Or.inl
    · rw [List.mem_singleton.mp new]
      exact Or.inr (Or.inr rfl)
  · intro account gone member
    rw [after] at member
    rw [retired] at gone
    rcases members account member with rfl | ⟨other, old⟩
    · rcases gone with ⟨earlier, inRecords, _, equal⟩ | equal
      · exact unknown (lineage.mentioned earlier inRecords _ (Or.inr (Or.inl equal.symm)))
      · exact rotation.1 equal.symm
    · rcases gone with earlier | equal
      · exact lineage.retired account earlier old
      · exact other equal.symm
  · rw [appended]
    refine pairwise_concat lineage.final (fun first member rotated => ?_)
    refine ⟨fun equal => ?_, fun equal => ?_⟩
    · refine lineage.retired first.source ⟨first, member, rotated, rfl⟩ ?_
      rw [← equal]
      exact List.mem_append_right _ own
    · refine unknown (lineage.mentioned first member _ ?_)
      rw [equal]
      exact Or.inr (Or.inl rfl)
  · rw [appended]
    exact pairwise_concat lineage.fresh
      (fun first member _ mention => unknown (lineage.mentioned first member _ mention))

end Records

/-! ### Chains of rotations -/

namespace Lineage

variable {externals : List AccountId} {view : View}

/-- External accounts never sign. -/
theorem source_not_external (lineage : Lineage externals view) {record : TxRecord}
    (member : record ∈ view.chain.ledger.records) : record.source ∉ externals := by
  rcases lineage.sources record member with own | gone
  · exact fun external => (List.nodup_append.mp lineage.distinct).2.2 _ external _ own rfl
  · exact fun external => lineage.retired _ gone (List.mem_append_left _ external)

/-- A record that moves value into an account that signs somewhere is a rotation. -/
theorem rotation_of_active (lineage : Lineage externals view) {record signed : TxRecord}
    (other : record.source ≠ record.dest) (active : signed ∈ view.chain.ledger.records)
    (signs : signed.source = record.dest) : Rotation externals record :=
  ⟨other.symm, by rw [← signs]; exact lineage.source_not_external active⟩

/-- Two rotations share neither their source nor their successor. -/
theorem rotations_apart (lineage : Lineage externals view) :
    view.chain.ledger.records.Pairwise (fun first second =>
      Rotation externals first → Rotation externals second →
        first.source ≠ second.source ∧ first.dest ≠ second.dest) := by
  refine (lineage.final.and lineage.fresh).imp (fun {first second} both before after => ?_)
  exact ⟨(both.1 before).1.symm, fun equal => both.2 after (Or.inr (Or.inr equal.symm))⟩

/-- An account is rotated out at most once. -/
theorem source_once (lineage : Lineage externals view) {i j : Nat} {first second : TxRecord}
    (atFirst : view.chain.ledger.records[i]? = some first)
    (atSecond : view.chain.ledger.records[j]? = some second)
    (one : Rotation externals first) (other : Rotation externals second)
    (equal : first.source = second.source) : i = j := by
  have apart : view.chain.ledger.records.Pairwise (fun first second =>
      ¬ (Rotation externals first ∧ Rotation externals second ∧ first.source = second.source)) :=
    lineage.rotations_apart.imp (fun apart both => (apart both.1 both.2.1).1 both.2.2)
  exact getElem?_unique apart (fun both => ⟨both.2.1, both.1, both.2.2.symm⟩) atFirst atSecond
    ⟨one, other, equal⟩

/-- An account is the successor of at most one rotation. -/
theorem successor_once (lineage : Lineage externals view) {i j : Nat} {first second : TxRecord}
    (atFirst : view.chain.ledger.records[i]? = some first)
    (atSecond : view.chain.ledger.records[j]? = some second)
    (one : Rotation externals first) (other : Rotation externals second)
    (equal : first.dest = second.dest) : i = j := by
  have apart : view.chain.ledger.records.Pairwise (fun first second =>
      ¬ (Rotation externals first ∧ Rotation externals second ∧ first.dest = second.dest)) :=
    lineage.rotations_apart.imp (fun apart both => (apart both.1 both.2.1).2 both.2.2)
  exact getElem?_unique apart (fun both => ⟨both.2.1, both.1, both.2.2.symm⟩) atFirst atSecond
    ⟨one, other, equal⟩

/-- An account that signs receives value from at most one other account. -/
theorem payer_unique (lineage : Lineage externals view) {first second signed : TxRecord}
    (one : first ∈ view.chain.ledger.records) (other : second ∈ view.chain.ledger.records)
    (active : signed ∈ view.chain.ledger.records) (signs : signed.source = first.dest)
    (firstMoves : first.source ≠ first.dest) (secondMoves : second.source ≠ second.dest)
    (equal : first.dest = second.dest) : first.source = second.source := by
  have firstRotates := lineage.rotation_of_active firstMoves active signs
  have secondRotates := lineage.rotation_of_active secondMoves active (signs.trans equal)
  obtain ⟨i, atFirst⟩ := List.mem_iff_getElem?.mp one
  obtain ⟨j, atSecond⟩ := List.mem_iff_getElem?.mp other
  obtain rfl := lineage.successor_once atFirst atSecond firstRotates secondRotates equal
  obtain rfl := Option.some.inj (atFirst.symm.trans atSecond)
  rfl

/-- Main accounts are never rotated out. -/
theorem main_stays (lineage : Lineage externals view) {agent : Agent} {record : TxRecord}
    (inAgents : agent ∈ view.agents) (member : record ∈ view.chain.ledger.records)
    (rotation : Rotation externals record) : record.source ≠ agent.main := by
  intro equal
  obtain ⟨index, found⟩ := List.mem_iff_getElem?.mp inAgents
  have own := mem_held found (List.mem_of_getElem? (lineage.agents index agent found).main)
  refine lineage.retired _ ⟨record, member, rotation, equal⟩ (List.mem_append_right _ own)

end Lineage

/-- Where every active destination has at most one payer, structural consolidation finds no
hub. -/
theorem cospendUnions_nil (order : HashOrder) (records : List TxRecord) (cfg : AdversaryConfig)
    (unique : ∀ first ∈ records, ∀ second ∈ records, ∀ signed ∈ records,
      signed.source = first.dest → 0 < first.amount → 0 < second.amount →
      first.source ≠ first.dest → second.source ≠ second.dest → first.dest = second.dest →
        first.source = second.source) : cospendUnions order records cfg = [] := by
  refine List.flatMap_eq_nil_iff.mpr (fun ⟨dest, sources⟩ member => ?_)
  have found := (order.mem_iterate _ _ dest sources).mp member
  have single : sources.keys.length < 2 := by
    refine lt_of_not_ge (fun many => ?_)
    obtain ⟨one, other, rest, keys⟩ : ∃ one other rest, sources.keys = one :: other :: rest := by
      match keys : sources.keys, many with
      | one :: other :: rest, _ => exact ⟨one, other, rest, rfl⟩
    have paid (source : AccountId) (key : source ∈ sources.keys) :
        ∃ record ∈ records, (0 < record.amount ∧ record.source ≠ record.dest ∧
          ∃ signed ∈ records, signed.source = record.dest) ∧
            record.dest = dest ∧ record.source = source := by
      obtain ⟨record, kept, equal⟩ := List.mem_map.mp ((mem_collectSets found source).mp key)
      obtain ⟨inRecords, test⟩ := List.mem_filter.mp kept
      obtain ⟨rfl, rfl⟩ := Prod.mk.inj equal
      simp only [Bool.and_eq_true, decide_eq_true_eq, List.mem_toFinset, List.mem_map] at test
      exact ⟨record, inRecords, ⟨test.1.1, test.1.2, test.2⟩, rfl, rfl⟩
    obtain ⟨first, inFirst, ⟨firstPays, firstMoves, signed, active, signs⟩, firstDest,
        firstSource⟩ :=
      paid one (by rw [keys]; exact List.mem_cons_self)
    obtain ⟨second, inSecond, ⟨secondPays, secondMoves, _⟩, secondDest, secondSource⟩ :=
      paid other (by rw [keys]; exact List.mem_cons_of_mem _ List.mem_cons_self)
    have same := unique first inFirst second inSecond signed active signs firstPays secondPays
      firstMoves secondMoves (firstDest.trans secondDest.symm)
    have nodup := sources.keys_nodup
    rw [keys] at nodup
    refine (List.nodup_cons.mp nodup).1 ?_
    rw [← firstSource, same, secondSource]
    exact List.mem_cons_self
  simp [single]

/-! ### Every reached state -/

/-- The run rotates accounts. -/
structure SimConfig.Rotates (cfg : SimConfig) : Prop where
  hardened : cfg.hardened = true
  strategy : cfg.hardening.rebalance = .rotateAccounts

/-- A step keeps the invariant while the identifiers drawn stay distinct. -/
theorem step_lineage {cfg : SimConfig} {externals : List AccountId} {before after : View}
    (rotates : cfg.Rotates) (lineage : Lineage externals before)
    (step : Step cfg externals before after) (distinct : after.drawn.Nodup) :
    Lineage externals after := by
  cases step with
  | tick agents chain drawn ts later =>
    exact ⟨lineage.agents, lineage.distinct, lineage.known, lineage.mentioned, lineage.outward,
      lineage.sources, lineage.retired, lineage.final, lineage.fresh⟩
  | act agents chain drawn index agent next found move =>
    cases move with
    | mk chain agent drawn ts tx feePayer after ids recorded timely emission appended =>
      have written := congrArg (fun chain => chain.ledger.records) (record_eq appended)
      obtain ⟨bound, here⟩ := List.getElem?_eq_some_iff.mp found
      have same : agents.set index agent = agents := by rw [← here, List.set_getElem_self]
      cases emission with
      | naivePay _ _ _ _ naive | naiveConsolidate _ _ naive =>
        exact absurd ((naive_unhardened naive).symm.trans rotates.hardened) (by simp)
      | legacyPay _ _ _ _ _ _ legacy | legacyChurn _ _ _ _ _ legacy =>
        exact absurd (legacy.symm.trans rotates.hardened) (by simp)
      | sweep _ _ _ _ _ directHub =>
        exact absurd (directHub.symm.trans rotates.strategy) (by simp)
      | pay source dest amount kind feePayer _ own outward =>
        show Lineage externals ⟨agents.set index agent, recorded, _⟩
        rw [same]
        exact lineage.payment written (mem_held found own) outward
      | rotate subIdx source successor amount feePayer _ _ operational atSource positive =>
        exact lineage.rotate found operational atSource positive distinct written

/-- A step keeps the main accounts. -/
theorem step_mains {cfg : SimConfig} {externals : List AccountId} {before after : View}
    (step : Step cfg externals before after) :
    after.agents.map (·.main) = before.agents.map (·.main) := by
  cases step with
  | tick agents chain drawn ts later => rfl
  | act agents chain drawn index agent next found move =>
    have main : next.agent.main = agent.main := by
      cases move with
      | mk chain agent drawn ts tx feePayer after ids recorded timely emission appended =>
        cases emission <;> rfl
    obtain ⟨bound, here⟩ := List.getElem?_eq_some_iff.mp found
    rw [List.map_set, main, ← here, ← List.map_set, List.set_getElem_self]

/-- What is drawn stays drawn. -/
theorem step_drawn {cfg : SimConfig} {externals : List AccountId} {before after : View}
    (step : Step cfg externals before after) : before.drawn.Sublist after.drawn := by
  cases step with
  | tick agents chain drawn ts later => exact List.Sublist.refl _
  | act agents chain drawn index agent next found move =>
    cases move with
    | mk => exact List.sublist_append_left _ _

/-- An invariant of the runs whose identifiers are distinct. -/
theorem ReachedBy.holdsDistinct {Generator : Type} [Rng Generator] [Libm]
    {personas : List Persona} {cfg : SimConfig} {built st : RunState Generator}
    {first ids : List AccountId} (reached : ReachedBy personas cfg built st first ids)
    (property : List AccountId → View → Prop)
    (start : ∀ (built : RunState Generator) first, Fresh cfg first built → first.Nodup →
      property built.externals (built.view first))
    (step : ∀ externals before after, property externals before →
      Step cfg externals before after → after.drawn.Nodup → property externals after)
    (distinct : ids.Nodup) : property st.externals (st.view ids) := by
  refine reached.holds (fun externals view => view.drawn.Nodup → property externals view)
    start (fun externals before after holds last nodup => ?_) distinct
  exact step externals before after (holds (nodup.sublist (step_drawn last))) last nodup

theorem fresh_lineage {Generator : Type} {cfg : SimConfig} {built : RunState Generator}
    {ids : List AccountId} (fresh : Fresh cfg ids built)
    (distinct : ids.Nodup) : Lineage built.externals (built.view ids) := by
  have empty : built.chain.ledger.records = [] := by rw [fresh.chain]; rfl
  have nothing {record : TxRecord} {proposition : Prop}
      (member : record ∈ built.chain.ledger.records) : proposition := by
    rw [empty] at member
    exact absurd member List.not_mem_nil
  refine ⟨fresh.agents, ?_, ?_, fun record member => nothing member,
    fun record member => nothing member, fun record member => nothing member,
    fun account ⟨record, member, _⟩ => nothing member, ?_, ?_⟩
  · rw [fresh.ids] at distinct
    exact distinct
  · intro account member
    show account ∈ ids
    rw [fresh.ids]
    exact member
  · show built.chain.ledger.records.Pairwise _
    rw [empty]
    exact List.Pairwise.nil
  · show built.chain.ledger.records.Pairwise _
    rw [empty]
    exact List.Pairwise.nil

section Reached

variable {Generator : Type} [Rng Generator] [Libm] {personas : List Persona} {cfg : SimConfig}
  {built st : RunState Generator} {first ids : List AccountId}

theorem ReachedBy.lineage (reached : ReachedBy personas cfg built st first ids)
    (rotates : cfg.Rotates) (distinct : ids.Nodup) : Lineage st.externals (st.view ids) :=
  reached.holdsDistinct Lineage (fun _ _ fresh nodup => fresh_lineage fresh nodup)
    (fun _ _ _ lineage step nodup => step_lineage rotates lineage step nodup) distinct

theorem ReachedBy.mains (reached : ReachedBy personas cfg built st first ids) :
    st.agents.map (·.main) = built.agents.map (·.main) := by
  have kept (view : View) (steps : Steps cfg built.externals (built.view first) view) :
      view.agents.map (·.main) = built.agents.map (·.main) := by
    induction steps with
    | refl => rfl
    | tail _ last inductionHypothesis => exact (step_mains last).trans inductionHypothesis
  exact kept _ reached.steps

/-- At every boundary of a rotating run: each agent keeps its number of sub-accounts and its main
account, which stays its first; all sub-accounts are distinct; an account is rotated out at most
once, is the successor at most once, and is not paid and does not sign once rotated out; main
accounts stay; an account that signs receives value from at most one other, so that structural
consolidation adds no union. -/
theorem boundary_rotation [RngState Generator] (personas : List Persona) (cfg : SimConfig)
    (rotates : cfg.Rotates) (ids : List AccountId) (st : RunState Generator)
    (boundary : Boundary personas cfg ids st) (distinct : ids.Nodup) :
    (∃ built : RunState Generator, buildFresh personas cfg = some built ∧
      built.agents.length = st.agents.length ∧
      ∀ (index : Nat) (first agent : Agent), built.agents[index]? = some first →
        st.agents[index]? = some agent →
          agent.subaccounts.length = first.subaccounts.length ∧ agent.main = first.main ∧
            agent.subaccounts[0]? = some agent.main) ∧
    (held st.agents).Nodup ∧
    (∀ (i j : Nat) (first second : TxRecord), st.chain.ledger.records[i]? = some first →
      st.chain.ledger.records[j]? = some second → Rotation st.externals first →
        Rotation st.externals second →
          (first.source = second.source → i = j) ∧ (first.dest = second.dest → i = j)) ∧
    st.chain.ledger.records.Pairwise (fun first second => Rotation st.externals first →
      second.source ≠ first.source ∧ second.dest ≠ first.source) ∧
    (∀ agent ∈ st.agents, ∀ record ∈ st.chain.ledger.records,
      Rotation st.externals record → record.source ≠ agent.main) ∧
    (∀ first ∈ st.chain.ledger.records, ∀ second ∈ st.chain.ledger.records,
      ∀ signed ∈ st.chain.ledger.records, signed.source = first.dest → 0 < first.amount →
        0 < second.amount → first.source ≠ first.dest → second.source ≠ second.dest →
          first.dest = second.dest → first.source = second.source) ∧
    ∀ (order : HashOrder) (adversary : AdversaryConfig),
      cospendUnions order st.chain.ledger.records adversary = [] := by
  obtain ⟨built, first, reached⟩ := boundary.reached
  have lineage := reached.lineage rotates distinct
  have payers : ∀ first ∈ st.chain.ledger.records, ∀ second ∈ st.chain.ledger.records,
      ∀ signed ∈ st.chain.ledger.records, signed.source = first.dest → 0 < first.amount →
        0 < second.amount → first.source ≠ first.dest → second.source ≠ second.dest →
          first.dest = second.dest → first.source = second.source :=
    fun first one second other signed active signs _ _ firstMoves secondMoves equal =>
      lineage.payer_unique one other active signs firstMoves secondMoves equal
  refine ⟨⟨built, ?_, ?_, ?_⟩, (List.nodup_append.mp lineage.distinct).2.1, ?_, lineage.final,
    fun agent inAgents record member rotation => lineage.main_stays inAgents member rotation,
    payers, fun order adversary => cospendUnions_nil order _ adversary payers⟩
  · unfold buildFresh
    rw [reached.building]
    rfl
  · exact reached.same.agents.length_eq
  · intro index first agent atFirst atAgent
    obtain ⟨firstBound, firstEq⟩ := List.getElem?_eq_some_iff.mp atFirst
    obtain ⟨bound, equal⟩ := List.getElem?_eq_some_iff.mp atAgent
    have same := reached.same.agents.get firstBound bound
    have mains := congrArg (fun mains => mains[index]?) reached.mains
    simp only [List.getElem?_map, atFirst, atAgent, Option.map_some, Option.some_inj] at mains
    rw [List.get_eq_getElem, List.get_eq_getElem, firstEq, equal] at same
    exact ⟨same.count, mains, (lineage.agents index agent atAgent).main⟩
  · intro i j first second atFirst atSecond one other
    exact ⟨lineage.source_once atFirst atSecond one other,
      lineage.successor_once atFirst atSecond one other⟩

end Reached

/-- Two accounts of a small run are rotated out. -/
theorem boundary_rotation_smallRun : ∃ st : RunState Counter,
    finalState 3 [Persona.retail] smallRun = Outcome.returned st ∧
    (held st.agents).Nodup ∧
    ∀ order : HashOrder,
      cospendUnions order st.chain.ledger.records AdversaryConfig.exactTs = [] := by
  have returned : ((finalState 3 [Persona.retail] smallRun :
      Outcome (RunState Counter)).result?.map (fun st => st.chain.ledger.records.length)) =
      some 3 := by decide +kernel
  obtain ⟨st, result, length⟩ := Option.map_eq_some_iff.mp returned
  have ran := Outcome.result?_eq_some.mp result
  have distinct : (drawnIds Counter 3 [Persona.retail] smallRun).Nodup := by decide +kernel
  have rotation := boundary_rotation _ _ ⟨by decide +kernel, by decide +kernel⟩ _ st
    (finalState_boundary 3 ran) distinct
  exact ⟨st, ran, rotation.2.1, fun order => rotation.2.2.2.2.2.2 order AdversaryConfig.exactTs⟩

end AccountCooker
