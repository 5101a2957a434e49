import BeaconDuties.Proofs.ForkRules.Dispatch
import BeaconDuties.Proofs.Proposer.OnePass
import BeaconDuties.Proofs.Subnet.Rotation

/-!
# Service — a valid network is served at every fork

A network is validated as a whole, and the parts that use its constants check them once more.  The
second checks find nothing that validation lets pass: the rules of every fork can be had for each
valid network, and for no other one.  What a duty divides by is then not zero, the shifts are
shorter than the words they shift, and the leading bits of a node are a place of the shuffle that
moves them, so subnets are never refused.  The earlier ceiling is not above the later one, so a
candidate with the later one ends the search for a proposer at every fork.

* `SubnetParams.Sound` — constants that no computation of subnets stumbles over;
* `ForkRules.Serves` — what rules never refuse;
* `ForkRegistry.ofConfig_serves` — which networks are served, and that they are.
-/

namespace BeaconDuties

/-! ## Constants -/

/-- Constants with which no division, shift or shuffle of the subnets goes wrong. -/
structure SubnetParams.Sound (params : SubnetParams) : Prop where
  subnetCount_ne : params.subnetCount ≠ 0
  periodEpochs_ne : params.periodEpochs ≠ 0
  wordShift_lt : params.prefixBits.toNat < 64
  nodeShift_lt : 256 - params.prefixBits.toNat < 256
  leadingBits_lt : ∀ node, params.leadingBits node < 1 <<< params.prefixBits.toNat
  places_le : 1 <<< params.prefixBits.toNat ≤ maxListSize

theorem Networking.sound_subnetParams {networking : Networking}
    (hvalid : networking.validate = .ok ()) : networking.subnetParams.Sound := by
  rcases validate_eq_ok_iff.1 hvalid with ⟨hcount, _, ⟨hbits, _⟩, hlength⟩
  have hfew : networking.subnetParams.prefixBits.toNat ≤ 32 := prefixBits_le hvalid
  have hsome : networking.subnetParams.prefixBits.toNat ≠ 0 :=
    fun hzero => hbits (UInt8.toNat_inj.1 hzero)
  refine ⟨hcount, hlength, by omega, by omega, SubnetParams.leadingBits_lt hfew, ?_⟩
  rw [Nat.one_shiftLeft, maxListSize_eq_two_pow]
  exact Nat.pow_le_pow_right (by decide) (by omega)

/-! ## Rules -/

namespace ForkRules

/-- Rules by which a node always has subnets and a slot to leave them in, and by which a proposer is
found among candidates of known balances if one of them has the raised ceiling. -/
structure Serves (rules : ForkRules) : Prop where
  subnets : ∀ node epoch, ∃ subnets, (rules.subnets node epoch).value = .ok subnets
  unsubscriptionSlot : ∀ node slot, ∃ leaving, rules.unsubscriptionSlot node slot = .ok leaving
  proposer : ∀ (candidates : Array ValidatorIndex) (seed : Seed) (balances : BalanceLookup),
    0 < candidates.size → candidates.size ≤ 2 ^ 40 →
    (∀ validator ∈ candidates, ∃ balance, balances validator = some balance) →
    (∃ validator ∈ candidates, ∃ balance, balances validator = some balance ∧
      rules.config.maxEffectiveBalanceElectra ≤ balance) →
    ∃ proposer, (rules.proposer candidates seed balances).value = .ok proposer

variable {config : Config} {rules : ForkRules}

theorem lottery_ceiling_le (hvalid : rules.config.validate = .ok ())
    (candidates : Array ValidatorIndex) (seed : Seed) (balances : BalanceLookup) :
    (rules.lottery candidates seed balances).ceiling ≤
      rules.config.maxEffectiveBalanceElectra := by
  rcases Config.validate_eq_ok_iff.1 hvalid with ⟨⟨_, _, _, _, hraised⟩, _⟩
  rw [lottery_eq_ite]
  split
  · exact UInt64.le_refl _
  · exact hraised

theorem serves_of_valid (hvalid : rules.config.validate = .ok ()) : rules.Serves := by
  have hnetworking := (Config.validate_eq_ok_iff.1 hvalid).2.2
  refine ⟨?_, ?_, ?_⟩
  · intro node epoch
    rcases Networking.exists_subscribedSubnets hnetworking node epoch
      rules.config.shuffleRoundCount with ⟨subnets, hsubnets⟩
    refine ⟨subnets, ?_⟩
    rw [ForkRules.subnets, subscribedSubnetsReported, hsubnets]
    rfl
  · intro node slot
    exact ⟨_, Networking.unsubscriptionSlot_eq_ok hnetworking node slot rules.clock⟩
  · intro candidates seed balances _ hfits hknown hstake
    rw [← maxListSize_eq_two_pow] at hfits
    have hfull : ∃ validator ∈ candidates,
        (rules.lottery candidates seed balances).FullOrUnknown validator := by
      rcases hstake with ⟨validator, hmem, balance, hbalance, hraised⟩
      refine ⟨validator, hmem, ?_⟩
      intro other hother
      rw [balances_lottery] at hother
      have hsame : other = balance := Option.some.inj (hother.symm.trans hbalance)
      rw [hsame]
      exact UInt64.le_trans (lottery_ceiling_le hvalid candidates seed balances) hraised
    have hends : ∃ draw, (rules.lottery candidates seed balances).draw = .ok draw :=
      ProposerLottery.exists_draw_of_forall_known (by simpa using hfits) (by simpa using hknown)
        (by simpa using hfull)
    rcases hends with ⟨draw, hdraw⟩
    refine ⟨draw.index, ?_⟩
    rw [proposer, ProposerLottery.proposerReported, ProposerLottery.drawReported, hdraw]
    rfl

end ForkRules

/-! ## Networks -/

namespace ForkRegistry

variable {config : Config} {registry : ForkRegistry}

theorem ofConfig_of_invalid {cause : ConfigError} (hinvalid : config.validate = .error cause) :
    (ofConfig config).value = .error (.invalidConfig cause) := by
  simp [ofConfig, Config.validateReported, hinvalid]

/-- Only a valid network has its rules, and they are those of its own constants. -/
theorem validate_of_ofConfig (hregistry : (ofConfig config).value = .ok registry) :
    config.validate = .ok () ∧ registry.config = config := by
  cases hvalid : config.validate with
  | error cause =>
    rw [ofConfig_of_invalid hvalid] at hregistry
    cases hregistry
  | ok =>
    rcases ofConfig_eq_ok hvalid with ⟨built, hbuilt, hconfig, _⟩
    rw [hbuilt] at hregistry
    cases hregistry
    exact ⟨rfl, hconfig⟩

/-- A network has its rules just if it is valid, and is refused for its first fault otherwise.  With
its rules there are sound constants, epochs with slots, and at every fork the rules that the fork
would make by itself, which always serve. -/
theorem ofConfig_serves (config : Config) :
    ((∃ registry, (ofConfig config).value = .ok registry) ↔ config.validate = .ok ()) ∧
    (∀ cause, config.validate = .error cause →
      (ofConfig config).value = .error (.invalidConfig cause)) ∧
    ∀ registry, (ofConfig config).value = .ok registry →
      registry.config = config ∧ registry.clock.slotsPerEpoch ≠ 0 ∧
      (∃ params, SubnetParams.ofNetworking config.networking = .ok params ∧ params.Sound) ∧
      ∀ milestone,
        ForkRules.ofAnyMilestone milestone config = .ok (registry.atMilestone milestone) ∧
        (registry.atMilestone milestone).Serves := by
  refine ⟨⟨?_, ?_⟩, fun _ => ofConfig_of_invalid, ?_⟩
  · rintro ⟨registry, hregistry⟩
    exact (validate_of_ofConfig hregistry).1
  · intro hvalid
    rcases ofConfig_eq_ok hvalid with ⟨registry, hregistry, _⟩
    exact ⟨registry, hregistry⟩
  · intro registry hregistry
    rcases validate_of_ofConfig hregistry with ⟨hvalid, hconfig⟩
    have hnetworking := (Config.validate_eq_ok_iff.1 hvalid).2.2
    have hslots := UInt64.pos_iff_ne_zero.1 registry.clock.slots_pos
    refine ⟨hconfig, hslots, ⟨config.networking.subnetParams,
      Networking.ofNetworking_eq_ok hnetworking, Networking.sound_subnetParams hnetworking⟩, ?_⟩
    intro milestone
    constructor
    · rw [← hconfig]
      exact registry.ofAnyMilestone_eq_ok milestone
    · apply ForkRules.serves_of_valid
      rw [config_atMilestone, hconfig]
      exact hvalid

/-- The main network finds a proposer at every fork if one of two candidates has the raised ceiling,
and a network whose epochs have no slots has no rules. -/
theorem ofConfig_serves_mainnet :
    let balances : BalanceLookup :=
      fun validator => some (if validator = 2 then 2048000000000 else 0)
    let slotless : Config := { Config.mainnet with slotsPerEpoch := 0 }
    (ofConfig slotless).value = .error (.invalidConfig (.zero .slotsPerEpoch)) ∧
    ∃ registry, (ofConfig .mainnet).value = .ok registry ∧ ∀ milestone seed, ∃ proposer,
      ((registry.atMilestone milestone).proposer #[1, 2] seed balances).value = .ok proposer := by
  intro balances slotless
  rcases (ofConfig_serves .mainnet).1.2 rfl with ⟨registry, hregistry⟩
  refine ⟨(ofConfig_serves slotless).2.1 _ rfl, registry, hregistry, ?_⟩
  intro milestone seed
  rcases (ofConfig_serves .mainnet).2.2 registry hregistry with ⟨hconfig, _, _, hserves⟩
  have hraised : (registry.atMilestone milestone).config.maxEffectiveBalanceElectra ≤
      2048000000000 := by
    rw [config_atMilestone, hconfig]
    exact UInt64.le_refl _
  exact (hserves milestone).2.proposer #[1, 2] seed balances (by decide) (by decide)
    (fun _ _ => ⟨_, rfl⟩) ⟨2, by simp, _, rfl, hraised⟩

end ForkRegistry

end BeaconDuties
