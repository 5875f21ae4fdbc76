import Vtorrent.Governance

/-!
# Rewards under governed parameters

Governance changes one parameter at a time and keeps each within its range.  The rate and the
age cap therefore stay below one tenth and one year, which bounds the product that the reward
is divided from.
-/

namespace Vtorrent

/-- The parameters that governance can reach from the compiled ones. -/
inductive ConsensusParams.Governed : ConsensusParams → Prop
  | initial : Governed .initial
  | apply {params next : ConsensusParams} (param : ParamId) (value : UInt64)
      (governed : Governed params) (applied : param.apply params value = .ok next) :
      Governed next

structure ConsensusParams.RewardRange (params : ConsensusParams) : Prop where
  rate : params.posAnnualRateBps.toNat ≤ 1000
  ageCap : params.rewardAgeCap.toNat ≤ 365 * 86400

theorem ParamId.apply_eq_ok {param : ParamId} {params next : ConsensusParams} {value : UInt64}
    (applied : param.apply params value = .ok next) :
    param.allowed value = true ∧ next = param.set params value := by
  obtain ⟨_, inRange, applied⟩ := Checked.bind_eq_ok.mp applied
  obtain ⟨_, _, applied⟩ := Checked.bind_eq_ok.mp applied
  have inRange := Checked.rejectIf_eq_ok.mp inRange
  exact ⟨by simpa using inRange, (Except.ok.inj applied).symm⟩

theorem ConsensusParams.RewardRange.set {params : ConsensusParams} {param : ParamId}
    {value : UInt64} (range : params.RewardRange) (inRange : param.allowed value = true) :
    (param.set params value).RewardRange := by
  cases param with
  | posAnnualRateBps =>
      simp only [ParamId.allowed, Bool.and_eq_true, decide_eq_true_eq,
        UInt64.le_iff_toNat_le] at inRange
      refine ⟨?_, range.ageCap⟩
      have small : value.toNat ≤ 1000 := inRange.2
      have narrowed : value.toUInt32.toNat = value.toNat := by
        rw [UInt64.toNat_toUInt32, Nat.mod_eq_of_lt (by omega)]
      exact narrowed ▸ small
  | rewardAgeCap =>
      simp only [ParamId.allowed, Bool.and_eq_true, decide_eq_true_eq,
        UInt64.le_iff_toNat_le] at inRange
      exact ⟨range.rate, inRange.2⟩
  | minStakeAge | maxStakeAge | minStakeAmount | targetBlockTime =>
      exact ⟨range.rate, range.ageCap⟩

theorem ConsensusParams.Governed.rewardRange {params : ConsensusParams}
    (governed : params.Governed) : params.RewardRange := by
  induction governed with
  | initial => exact ⟨by decide, by decide⟩
  | apply param value _ applied ih =>
      obtain ⟨inRange, rfl⟩ := ParamId.apply_eq_ok applied
      exact ih.set inRange

/-- The product the reward is divided from, as an exact number. -/
def posRewardNumerator (params : ConsensusParams) (stakeAmount coinAgeSeconds : UInt64) : Nat :=
  stakeAmount.toNat * (min coinAgeSeconds params.rewardAgeCap).toNat *
    params.posAnnualRateBps.toNat

def posRewardDenominator : Nat := 10000 * 86400 * 365

section Reward

variable {params : ConsensusParams} {stake larger age older : UInt64}

theorem ConsensusParams.RewardRange.age_mul_rate_le (range : params.RewardRange)
    (age : UInt64) :
    (min age params.rewardAgeCap).toNat * params.posAnnualRateBps.toNat ≤
      365 * 86400 * 1000 := by
  refine Nat.mul_le_mul ?_ range.rate
  rw [UInt64.toNat_min]
  exact le_trans (min_le_right _ _) range.ageCap

theorem ConsensusParams.RewardRange.numerator_le (range : params.RewardRange)
    (stake age : UInt64) :
    posRewardNumerator params stake age ≤ stake.toNat * (365 * 86400 * 1000) := by
  rw [posRewardNumerator, Nat.mul_assoc]
  exact Nat.mul_le_mul_left _ (range.age_mul_rate_le age)

theorem ConsensusParams.RewardRange.quotient_le (range : params.RewardRange)
    (stake age : UInt64) :
    posRewardNumerator params stake age / posRewardDenominator ≤ stake.toNat / 10 := by
  have bound := Nat.div_le_div_right (range.numerator_le stake age) (c := posRewardDenominator)
  rw [posRewardDenominator] at *
  omega

theorem ConsensusParams.RewardRange.toNat_reward (range : params.RewardRange)
    (stake age : UInt64) :
    (computePosRewardWith params stake age).toNat =
      posRewardNumerator params stake age / posRewardDenominator := by
  have bound := range.quotient_le stake age
  have small := stake.toNat_lt
  rw [computePosRewardWith, UInt64.toNat_ofNat']
  exact Nat.mod_eq_of_lt (by rw [← posRewardNumerator, ← posRewardDenominator]; omega)

theorem posRewardNumerator_mono (params : ConsensusParams) (richer : stake ≤ larger)
    (aged : age ≤ older) :
    posRewardNumerator params stake age ≤ posRewardNumerator params larger older := by
  rw [UInt64.le_iff_toNat_le] at richer aged
  rw [posRewardNumerator, posRewardNumerator, UInt64.toNat_min, UInt64.toNat_min]
  exact Nat.mul_le_mul_right _ (Nat.mul_le_mul richer (min_le_min_right _ aged))

theorem sum_quotients_le (factor divisor : Nat) (parts : List Nat) :
    (parts.map fun part => part * factor / divisor).sum ≤ parts.sum * factor / divisor := by
  induction parts with
  | nil => simp
  | cons part parts ih =>
      rw [List.map_cons, List.sum_cons, List.sum_cons, Nat.add_mul]
      calc part * factor / divisor + (parts.map fun part => part * factor / divisor).sum
          ≤ part * factor / divisor + parts.sum * factor / divisor := by omega
        _ ≤ (part * factor + parts.sum * factor) / divisor := Nat.div_add_div_le_add_div

end Reward

/-- Under governed parameters the reward is computed without overflow and truncation, is at
most a tenth of the stake, grows with the stake and its age, and does not grow when the stake
is split. -/
theorem governed_reward_bounded {params : ConsensusParams} (governed : params.Governed) :
    (∀ stake age : UInt64, stake ≤ maxMoney →
      stake.toNat * (min age params.rewardAgeCap).toNat < 2 ^ 128 ∧
      posRewardNumerator params stake age < 2 ^ 128 ∧
      (computePosRewardWith params stake age).toNat =
        posRewardNumerator params stake age / posRewardDenominator ∧
      (computePosRewardWith params stake age).toNat ≤ stake.toNat / 10) ∧
    (∀ stake larger age older : UInt64, stake ≤ larger → larger ≤ maxMoney → age ≤ older →
      computePosRewardWith params stake age ≤ computePosRewardWith params larger older) ∧
    ∀ (stake age : UInt64) (parts : List UInt64), stake ≤ maxMoney →
      (parts.map UInt64.toNat).sum = stake.toNat →
      (parts.map fun part => (computePosRewardWith params part age).toNat).sum ≤
        (computePosRewardWith params stake age).toNat := by
  have range := governed.rewardRange
  refine ⟨?_, ?_, ?_⟩
  · intro stake age _
    have small := stake.toNat_lt
    have product := range.numerator_le stake age
    refine ⟨?_, by omega, range.toNat_reward stake age, ?_⟩
    · have capped := (min age params.rewardAgeCap).toNat_lt
      calc stake.toNat * (min age params.rewardAgeCap).toNat
          < 2 ^ 64 * 2 ^ 64 := Nat.mul_lt_mul'' small capped
        _ = 2 ^ 128 := by norm_num
    · rw [range.toNat_reward]
      exact range.quotient_le stake age
  · intro stake larger age older richer _ aged
    rw [UInt64.le_iff_toNat_le, range.toNat_reward, range.toNat_reward]
    exact Nat.div_le_div_right (posRewardNumerator_mono params richer aged)
  · intro stake age parts _ whole
    simp only [range.toNat_reward, posRewardNumerator, Nat.mul_assoc]
    rw [← whole]
    simpa only [List.map_map, Function.comp_def] using sum_quotients_le
      ((min age params.rewardAgeCap).toNat * params.posAnnualRateBps.toNat)
      posRewardDenominator (parts.map UInt64.toNat)

def highestRate : ConsensusParams := { ConsensusParams.initial with posAnnualRateBps := 1000 }

theorem governed_reward_bounded_highest :
    computePosRewardWith highestRate 1000 (6 * 86400) ≤
      computePosRewardWith highestRate maxMoney (7 * 86400) :=
  (governed_reward_bounded (.apply .posAnnualRateBps 1000 .initial (by decide))).2.1
    1000 maxMoney (6 * 86400) (7 * 86400) (by decide) (by decide) (by decide)

end Vtorrent
