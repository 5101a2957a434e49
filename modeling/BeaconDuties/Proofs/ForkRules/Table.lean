import BeaconDuties.ForkRules

/-!
# Table — every fork finds its own rules in the table

The rules of a fork are in one of three sets, and the set answers without asking which fork it is
for. The answers can still be told from the fork alone: rules of deneb are in just those sets that
take deneb or a later fork, and just the set of electra draws proposers in its own way. So the three
sets with their layers come to the same as one that asks for its fork each time.

The table has the rules of every fork in the place where they are looked up, all over one network
and one clock.

* `ForkRules.isSome_deneb?` — which rules have those of deneb in them;
* `ForkRules.maxRequestBlocks_eq_ite`, `ForkRules.lottery_eq_ite`, `ForkRules.fromDeneb_eq_ite`,
  `ForkRules.fromDenebAsking_eq_ite` — the operations that differ, told from the fork;
* `ForkRegistry.atMilestone_eq` — what stands in the place of a fork;
* `ForkRegistry.ofAnyMilestone_eq_ok` — that it is what the fork makes by itself;
* `ForkRegistry.build_eq_ok` — that there is a table.
-/

namespace BeaconDuties

/-! ## What the sets answer -/

namespace ForkRules

section OfClock

variable (fork : Milestone) (network : Config) (pace : EpochClock)

@[simp] theorem milestone_ofClock : (ofClock fork network pace).milestone = fork := by
  cases fork <;> rfl

@[simp] theorem config_ofClock : (ofClock fork network pace).config = network := by
  cases fork <;> rfl

@[simp] theorem clock_ofClock : (ofClock fork network pace).clock = pace := by
  cases fork <;> rfl

end OfClock

variable {rules : ForkRules}

theorem isSome_deneb? (rules : ForkRules) :
    rules.deneb?.isSome = rules.milestone.atLeast .deneb := by
  cases rules with
  | base rules early => exact early.symm
  | deneb rules first => exact rules.blobs.symm
  | electra rules => exact rules.deneb.blobs.symm

theorem config_of_deneb? {inner : DenebRules} (hinner : rules.deneb? = some inner) :
    inner.config = rules.config := by
  cases rules <;> cases hinner <;> rfl

theorem maxRequestBlocks_eq_ite : rules.maxRequestBlocks =
    if rules.milestone.atLeast .deneb then rules.config.networking.maxRequestBlocksDeneb
    else rules.config.networking.maxRequestBlocks := by
  rw [maxRequestBlocks, ← isSome_deneb?]
  cases hinner : rules.deneb? with
  | none => rfl
  | some inner =>
    rw [← config_of_deneb? hinner]
    rfl

/-- Only the set of electra draws proposers in its own way, and it holds no other fork. -/
theorem lottery_eq_ite (candidates : Array ValidatorIndex) (seed : Seed)
    (balances : BalanceLookup) : rules.lottery candidates seed balances =
      if rules.milestone.atLeast .electra then
        ⟨candidates, seed, balances, rules.config.maxEffectiveBalanceElectra,
          rules.config.shuffleRoundCount, .twoBytes⟩
      else
        ⟨candidates, seed, balances, rules.config.maxEffectiveBalance,
          rules.config.shuffleRoundCount, .byte⟩ := by
  cases rules with
  | base rules early =>
    -- A fork from electra on would be one from deneb on as well.
    have hbefore : ¬ rules.milestone.atLeast .electra = true := by
      intro hlater
      rw [Milestone.atLeast_trans hlater rfl] at early
      cases early
    exact (if_neg hbefore).symm
  | deneb rules first =>
    have hbefore : ¬ rules.milestone.atLeast .electra = true := by
      rw [first]
      decide
    exact (if_neg hbefore).symm
  | electra rules =>
    have hlatest : rules.milestone.atLeast .electra = true := by
      rw [ElectraRules.milestone, rules.latest]
      rfl
    exact (if_pos hlatest).symm

@[simp] theorem candidates_lottery (candidates : Array ValidatorIndex) (seed : Seed)
    (balances : BalanceLookup) :
    (rules.lottery candidates seed balances).candidates = candidates := by
  cases rules <;> rfl

@[simp] theorem balances_lottery (candidates : Array ValidatorIndex) (seed : Seed)
    (balances : BalanceLookup) : (rules.lottery candidates seed balances).balances = balances := by
  cases rules <;> rfl

variable {α : Type} {operation : BlobOperation}

theorem fromDeneb_eq_ite {carryOut : DenebRules → Except DutyError α}
    {outcome : Except DutyError α} (hcarry : ∀ inner, carryOut inner = outcome) :
    rules.fromDeneb operation carryOut =
      if rules.milestone.atLeast .deneb then pure outcome else rules.decline operation := by
  rw [fromDeneb, ← isSome_deneb?]
  cases rules.deneb? with
  | none => rfl
  | some inner =>
    rw [← hcarry inner]
    rfl

theorem fromDenebAsking_eq_ite {oracle : KzgOracle}
    {ask : DenebRules → KzgOracle → Reported (Except DutyError α × KzgOracle)}
    {answer : Reported (Except DutyError α × KzgOracle)}
    (hask : ∀ inner, ask inner oracle = answer) :
    rules.fromDenebAsking operation oracle ask =
      if rules.milestone.atLeast .deneb then answer
      else (·, oracle) <$> rules.decline operation := by
  rw [fromDenebAsking, ← isSome_deneb?]
  cases rules.deneb? with
  | none => rfl
  | some inner =>
    rw [← hask inner]
    rfl

end ForkRules

/-! ## What stands in the table -/

namespace ForkRegistry

variable (registry : ForkRegistry)

/-- The place of a fork in the table is its place in the order. -/
theorem exists_atMilestone_eq : ∃ clock, registry.config.clock = .ok clock ∧
    ∀ milestone, registry.atMilestone milestone =
      ForkRules.ofClock milestone registry.config clock := by
  rcases registry.exists_table_eq with ⟨clock, hclock, htable⟩
  refine ⟨clock, hclock, ?_⟩
  intro milestone
  have hplace : registry.table[milestone.ordinal]? =
      some (ForkRules.ofClock milestone registry.config clock) := by
    rw [htable, List.getElem?_map, milestone.getElem?_all_ordinal]
    rfl
  rcases List.getElem?_eq_some_iff.1 hplace with ⟨_, hentry⟩
  exact hentry

theorem clock_eq_ok : registry.config.clock = .ok registry.clock := by
  rcases registry.exists_atMilestone_eq with ⟨clock, hclock, hentries⟩
  rw [ForkRegistry.clock, hentries, ForkRules.clock_ofClock]
  exact hclock

theorem atMilestone_eq (milestone : Milestone) : registry.atMilestone milestone =
    ForkRules.ofClock milestone registry.config registry.clock := by
  rcases registry.exists_atMilestone_eq with ⟨clock, hclock, hentries⟩
  rw [registry.clock_eq_ok] at hclock
  rw [hentries, Except.ok.inj hclock]

/-- What a fork has in the table are the rules that it would make by itself. -/
theorem ofAnyMilestone_eq_ok (milestone : Milestone) :
    ForkRules.ofAnyMilestone milestone registry.config = .ok (registry.atMilestone milestone) := by
  rw [ForkRules.ofAnyMilestone_eq, ForkRules.ofMilestone, registry.clock_eq_ok, atMilestone_eq]
  rfl

theorem milestone_atMilestone (milestone : Milestone) :
    (registry.atMilestone milestone).milestone = milestone := by
  rw [atMilestone_eq, ForkRules.milestone_ofClock]

theorem config_atMilestone (milestone : Milestone) :
    (registry.atMilestone milestone).config = registry.config := by
  rw [atMilestone_eq, ForkRules.config_ofClock]

theorem clock_atMilestone (milestone : Milestone) :
    (registry.atMilestone milestone).clock = registry.clock := by
  rw [atMilestone_eq, ForkRules.clock_ofClock]

/-- A network with a clock has its table. -/
theorem build_eq_ok {config : Config} {clock : EpochClock} (hclock : config.clock = .ok clock) :
    ∃ registry, build config = .ok registry ∧ registry.config = config ∧
      registry.clock = clock := by
  have htable := ForkRules.ofEveryMilestone_eq config
  rw [hclock] at htable
  rw [build]
  split
  · rename_i hbuilt
    rw [hbuilt] at htable
    cases htable
  · rename_i table hbuilt
    refine ⟨_, rfl, rfl, ?_⟩
    have hown := clock_eq_ok ⟨config, table, hbuilt⟩
    exact Except.ok.inj (hown.symm.trans hclock)

end ForkRegistry

end BeaconDuties
