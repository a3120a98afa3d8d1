import Mathlib.Algebra.BigOperators.Group.Finset.Basic
import YuPost.Consensus.Reward

/-! The halving schedule of `GetBlockSubsidy` on the main network, with the
height of the block-time fork (`nReduceBlocktimeHeight`) left open: the
subsidy of each era, how the count of halvings moves from block to block, the
`int` range of the intermediate values of `SubsidyHalvingWeight`, and the
total emission. After the fork a block is worth a quarter as much and an era
lasts four times as many blocks; `SubsidyHalvingWeight` counts each block
before the fork four times, so the eras continue across the fork. -/

namespace YuPost.Consensus

open YuPost.Primitives

/-- `CMainParams` with the block-time fork at `nReduceBlocktimeHeight`. -/
def mainParamsWithFork (nReduceBlocktimeHeight : Int) : Params :=
  { mainParams with nReduceBlocktimeHeight := nReduceBlocktimeHeight }

namespace Params

/-- The `halvings` of `GetBlockSubsidy`. -/
def halvings (p : Params) (nHeight : Int) : Int :=
  (p.subsidyHalvingWeight nHeight - 1).tdiv (p.subsidyHalvingInterval nHeight)

/-- The values `SubsidyHalvingWeight` computes in `int`, in order: the block
count, the blocks before the fork, the count less them, those blocks weighted
by the factor, and the weight. -/
def subsidyHalvingWeightTerms (p : Params) (height : Int) : List Int :=
  if height ≤ p.nLastBigReward then []
  else
    let blocktimeDownscaleFactor := p.blocktimeDownscaleFactor height
    let blockCount := height - p.nLastBigReward
    let beforeDownscale :=
      if blocktimeDownscaleFactor = 1 then 0 else p.nReduceBlocktimeHeight - p.nLastBigReward - 1
    [blockCount, beforeDownscale, blockCount - beforeDownscale,
      beforeDownscale * blocktimeDownscaleFactor, p.subsidyHalvingWeight height]

end Params

theorem getBlockSubsidy_eq_halvings (p : Params) (nHeight : Int) :
    getBlockSubsidy p nHeight =
      if nHeight ≤ p.nLastBigReward then 20000 * COIN
      else if p.halvings nHeight ≥ 7 then 0
      else (4 * COIN).tdiv (p.blocktimeDownscaleFactor nHeight) >>> (p.halvings nHeight).toNat :=
  rfl

section Eras

variable {p : Params} {nHeight : Int}

theorem halvings_of_era (hinterval : 0 < p.subsidyHalvingInterval nHeight) {k : Nat}
    (hlow : k * p.subsidyHalvingInterval nHeight < p.subsidyHalvingWeight nHeight)
    (hhigh : p.subsidyHalvingWeight nHeight ≤ (k + 1) * p.subsidyHalvingInterval nHeight) :
    p.halvings nHeight = k := by
  have hk : (0 : Int) ≤ k * p.subsidyHalvingInterval nHeight := Int.mul_nonneg (by omega) hinterval.le
  have hsplit : p.subsidyHalvingWeight nHeight - 1 =
      (p.subsidyHalvingWeight nHeight - 1 - k * p.subsidyHalvingInterval nHeight) +
        k * p.subsidyHalvingInterval nHeight := by omega
  rw [Params.halvings, Int.tdiv_eq_ediv_of_nonneg (by omega), hsplit,
    Int.add_mul_ediv_right _ _ hinterval.ne', Int.ediv_eq_zero_of_lt (by omega) (by rw [Int.add_mul] at hhigh; omega),
    Int.zero_add]

theorem seven_le_halvings (hinterval : 0 < p.subsidyHalvingInterval nHeight)
    (hbeyond : 7 * p.subsidyHalvingInterval nHeight < p.subsidyHalvingWeight nHeight) :
    7 ≤ p.halvings nHeight := by
  have hsplit : p.subsidyHalvingWeight nHeight - 1 =
      (p.subsidyHalvingWeight nHeight - 1 - 7 * p.subsidyHalvingInterval nHeight) +
        7 * p.subsidyHalvingInterval nHeight := by omega
  rw [Params.halvings, Int.tdiv_eq_ediv_of_nonneg (by omega), hsplit,
    Int.add_mul_ediv_right _ _ hinterval.ne']
  have := Int.ediv_nonneg (show 0 ≤ p.subsidyHalvingWeight nHeight - 1 -
    7 * p.subsidyHalvingInterval nHeight by omega) hinterval.le
  omega

theorem getBlockSubsidy_of_era (hbig : p.nLastBigReward < nHeight)
    (hinterval : 0 < p.subsidyHalvingInterval nHeight) {k : Nat} (hk : k < 7)
    (hlow : k * p.subsidyHalvingInterval nHeight < p.subsidyHalvingWeight nHeight)
    (hhigh : p.subsidyHalvingWeight nHeight ≤ (k + 1) * p.subsidyHalvingInterval nHeight) :
    getBlockSubsidy p nHeight = (4 * COIN).tdiv (p.blocktimeDownscaleFactor nHeight) >>> k := by
  rw [getBlockSubsidy_eq_halvings, if_neg (Int.not_le.mpr hbig), halvings_of_era hinterval hlow hhigh,
    if_neg (by omega), Int.toNat_natCast]

theorem getBlockSubsidy_beyond_eras (hbig : p.nLastBigReward < nHeight)
    (hinterval : 0 < p.subsidyHalvingInterval nHeight)
    (hbeyond : 7 * p.subsidyHalvingInterval nHeight < p.subsidyHalvingWeight nHeight) :
    getBlockSubsidy p nHeight = 0 := by
  rw [getBlockSubsidy_eq_halvings, if_neg (Int.not_le.mpr hbig),
    if_pos (seven_le_halvings hinterval hbeyond)]

end Eras

section MainNetwork

variable {nReduceBlocktimeHeight : Int}

@[simp] theorem mainParamsWithFork_nLastBigReward :
    (mainParamsWithFork nReduceBlocktimeHeight).nLastBigReward = 5000 := rfl

@[simp] theorem mainParamsWithFork_nReduceBlocktimeHeight :
    (mainParamsWithFork nReduceBlocktimeHeight).nReduceBlocktimeHeight = nReduceBlocktimeHeight := rfl

@[simp] theorem mainParamsWithFork_nSubsidyHalvingInterval :
    (mainParamsWithFork nReduceBlocktimeHeight).nSubsidyHalvingInterval = 985500 := rfl

@[simp] theorem mainParamsWithFork_nSubsidyHalvingIntervalV2 :
    (mainParamsWithFork nReduceBlocktimeHeight).nSubsidyHalvingIntervalV2 = 3942000 := rfl

@[simp] theorem mainParamsWithFork_nBlocktimeDownscaleFactor :
    (mainParamsWithFork nReduceBlocktimeHeight).nBlocktimeDownscaleFactor = 4 := rfl

theorem blocktimeDownscaleFactor_main (height : Int) :
    (mainParamsWithFork nReduceBlocktimeHeight).blocktimeDownscaleFactor height =
      if height < nReduceBlocktimeHeight then 1 else 4 := rfl

theorem subsidyHalvingInterval_main (height : Int) :
    (mainParamsWithFork nReduceBlocktimeHeight).subsidyHalvingInterval height =
      if height < nReduceBlocktimeHeight then 985500 else 3942000 := rfl

theorem subsidyHalvingWeight_main (height : Int) :
    (mainParamsWithFork nReduceBlocktimeHeight).subsidyHalvingWeight height =
      if height ≤ 5000 then 0
      else if height < nReduceBlocktimeHeight then height - 5000
      else height - 5000 + 3 * (nReduceBlocktimeHeight - 5001) := by
  unfold Params.subsidyHalvingWeight
  rw [blocktimeDownscaleFactor_main, mainParamsWithFork_nLastBigReward,
    mainParamsWithFork_nReduceBlocktimeHeight]
  by_cases hbig : height ≤ 5000
  · simp [hbig]
  · by_cases hpre : height < nReduceBlocktimeHeight
    · simp [hbig, hpre]
    · simp only [hbig, hpre, if_false, show (4 : Int) ≠ 1 by decide]
      omega

theorem halvings_main (hfork : 5000 < nReduceBlocktimeHeight) (height : Int) :
    (mainParamsWithFork nReduceBlocktimeHeight).halvings height =
      if height ≤ 5000 then 0
      else if height < nReduceBlocktimeHeight then (height - 5001) / 985500
      else (height - 5001 + 3 * (nReduceBlocktimeHeight - 5001)) / 3942000 := by
  rw [Params.halvings, subsidyHalvingWeight_main, subsidyHalvingInterval_main]
  by_cases hbig : height ≤ 5000
  · -- a weight of zero: `-1` divided towards zero
    simp only [hbig, if_true]
    split <;> rfl
  · by_cases hpre : height < nReduceBlocktimeHeight
    · simp only [hbig, hpre, if_true, if_false]
      rw [Int.tdiv_eq_ediv_of_nonneg (by omega)]
      omega
    · simp only [hbig, hpre, if_false]
      rw [Int.tdiv_eq_ediv_of_nonneg (by omega)]
      omega

theorem halvings_main_succ (hfork : 5000 < nReduceBlocktimeHeight) (height : Int) :
    (mainParamsWithFork nReduceBlocktimeHeight).halvings height ≤
        (mainParamsWithFork nReduceBlocktimeHeight).halvings (height + 1) ∧
      (mainParamsWithFork nReduceBlocktimeHeight).halvings (height + 1) ≤
        (mainParamsWithFork nReduceBlocktimeHeight).halvings height + 1 := by
  rw [halvings_main hfork, halvings_main hfork]
  split_ifs <;> omega

/-- Below `INT_MAX` less three times the blocks before the fork, every value
`SubsidyHalvingWeight` computes is an `int`; the heights of the big rewards
compute nothing. -/
theorem subsidyHalvingWeightTerms_main_int (hfork : 5000 < nReduceBlocktimeHeight) {height : Int}
    (hhigh : height < 2 ^ 31 - 1 - 3 * (nReduceBlocktimeHeight - 5001)) :
    ∀ x ∈ (mainParamsWithFork nReduceBlocktimeHeight).subsidyHalvingWeightTerms height,
      -2 ^ 31 ≤ x ∧ x ≤ 2 ^ 31 - 1 := by
  unfold Params.subsidyHalvingWeightTerms
  rw [subsidyHalvingWeight_main, blocktimeDownscaleFactor_main, mainParamsWithFork_nLastBigReward,
    mainParamsWithFork_nReduceBlocktimeHeight]
  by_cases hbig : height ≤ 5000
  · simp [hbig]
  · by_cases hpre : height < nReduceBlocktimeHeight
    · simp only [hbig, hpre, if_true, if_false, List.mem_cons, List.not_mem_nil, or_false]
      rintro x (rfl | rfl | rfl | rfl | rfl) <;> omega
    · simp only [hbig, hpre, if_false, show (4 : Int) ≠ 1 by decide, List.mem_cons,
        List.not_mem_nil, or_false]
      rintro x (rfl | rfl | rfl | rfl | rfl) <;> omega

theorem shiftRight_nonneg_le {nSubsidy : Int} (hnonneg : 0 ≤ nSubsidy) (k : Nat) :
    0 ≤ nSubsidy >>> k ∧ nSubsidy >>> k ≤ nSubsidy := by
  rw [Int.shiftRight_eq_div_pow]
  exact ⟨Int.ediv_nonneg hnonneg (Int.pow_nonneg (by decide : (0 : Int) ≤ 2)), Int.ediv_le_self _ hnonneg⟩

theorem getBlockSubsidy_main_bounds (hfork : 5000 < nReduceBlocktimeHeight) (height : Int) :
    0 ≤ getBlockSubsidy (mainParamsWithFork nReduceBlocktimeHeight) height ∧
      getBlockSubsidy (mainParamsWithFork nReduceBlocktimeHeight) height ≤
        if height ≤ 5000 then 20000 * COIN else if height < 5001 + 27594000 then 4 * COIN else 0 := by
  rw [getBlockSubsidy_eq_halvings, halvings_main hfork, blocktimeDownscaleFactor_main,
    mainParamsWithFork_nLastBigReward]
  by_cases hbig : height ≤ 5000
  · simp only [hbig, if_true]
    unfold COIN
    omega
  · simp only [hbig, if_false]
    by_cases hbeyond : (5001 + 27594000 : Int) ≤ height
    · -- past seven eras of either length the count is seven or more
      rw [if_pos (by split_ifs <;> omega), if_neg (by omega)]
      omega
    · rw [if_pos (Int.not_le.mp hbeyond)]
      -- the subsidy before the shift is `4 COIN` or `COIN`
      have hsubsidy : 0 ≤ (4 * COIN).tdiv (if height < nReduceBlocktimeHeight then 1 else 4) ∧
          (4 * COIN).tdiv (if height < nReduceBlocktimeHeight then 1 else 4) ≤ 4 * COIN := by
        split_ifs <;> decide
      generalize (4 * COIN).tdiv (if height < nReduceBlocktimeHeight then 1 else 4) = nSubsidy at hsubsidy ⊢
      generalize (if height < nReduceBlocktimeHeight then (height - 5001) / 985500
        else (height - 5001 + 3 * (nReduceBlocktimeHeight - 5001)) / 3942000) = k
      have hshift := shiftRight_nonneg_le hsubsidy.1 k.toNat
      split_ifs <;> omega

theorem sum_getBlockSubsidy_main (hfork : 5000 < nReduceBlocktimeHeight) (H : Nat) :
    0 ≤ ∑ i ∈ Finset.range H, getBlockSubsidy (mainParamsWithFork nReduceBlocktimeHeight) (i + 1) ∧
      ∑ i ∈ Finset.range H, getBlockSubsidy (mainParamsWithFork nReduceBlocktimeHeight) (i + 1) ≤
        20000 * COIN * (min H 5000 : Nat) + 4 * COIN * (min (H - 5000) 27594000 : Nat) := by
  induction H with
  | zero => simp
  | succ H ih =>
    have hblock := getBlockSubsidy_main_bounds hfork ((H : Int) + 1)
    rw [Finset.sum_range_succ]
    unfold COIN at *
    split_ifs at hblock <;> omega

end MainNetwork

/-- The halving schedule on the main network, for any height of the block-time
fork past the big rewards: the subsidy of each era, the count of halvings from
block to block, the `int` range of the weight's computation, and the total
emission within `MoneyRange`. The halving weight is an integer here; the
source computes it in `int`, and the range conjunct bounds it for the heights
where that computation does not overflow. -/
theorem blockSubsidy_schedule (nReduceBlocktimeHeight : Int) (hfork : 5000 < nReduceBlocktimeHeight) :
    (∀ h, h ≤ 5000 → getBlockSubsidy (mainParamsWithFork nReduceBlocktimeHeight) h = 20000 * COIN) ∧
    (∀ h (k : Nat), 5000 < h → k < 7 →
      k * (mainParamsWithFork nReduceBlocktimeHeight).subsidyHalvingInterval h <
        (mainParamsWithFork nReduceBlocktimeHeight).subsidyHalvingWeight h →
      (mainParamsWithFork nReduceBlocktimeHeight).subsidyHalvingWeight h ≤
        (k + 1) * (mainParamsWithFork nReduceBlocktimeHeight).subsidyHalvingInterval h →
      getBlockSubsidy (mainParamsWithFork nReduceBlocktimeHeight) h =
        (4 * COIN).tdiv ((mainParamsWithFork nReduceBlocktimeHeight).blocktimeDownscaleFactor h) >>> k) ∧
    (∀ h, 5000 < h →
      7 * (mainParamsWithFork nReduceBlocktimeHeight).subsidyHalvingInterval h <
        (mainParamsWithFork nReduceBlocktimeHeight).subsidyHalvingWeight h →
      getBlockSubsidy (mainParamsWithFork nReduceBlocktimeHeight) h = 0) ∧
    (∀ h, (mainParamsWithFork nReduceBlocktimeHeight).halvings h ≤
        (mainParamsWithFork nReduceBlocktimeHeight).halvings (h + 1) ∧
      (mainParamsWithFork nReduceBlocktimeHeight).halvings (h + 1) ≤
        (mainParamsWithFork nReduceBlocktimeHeight).halvings h + 1) ∧
    (∀ h, h < 2 ^ 31 - 1 - 3 * (nReduceBlocktimeHeight - 5001) →
      ∀ x ∈ (mainParamsWithFork nReduceBlocktimeHeight).subsidyHalvingWeightTerms h,
        -2 ^ 31 ≤ x ∧ x ≤ 2 ^ 31 - 1) ∧
    (∀ H : Nat, MoneyRange
      (∑ i ∈ Finset.range H, getBlockSubsidy (mainParamsWithFork nReduceBlocktimeHeight) (i + 1)) =
        true) := by
  have hinterval (h : Int) : 0 < (mainParamsWithFork nReduceBlocktimeHeight).subsidyHalvingInterval h := by
    rw [subsidyHalvingInterval_main]
    split_ifs <;> decide
  refine ⟨fun h hbig => by rw [getBlockSubsidy_eq_halvings, mainParamsWithFork_nLastBigReward, if_pos hbig],
    fun h k hbig hk hlow hhigh => getBlockSubsidy_of_era hbig (hinterval h) hk hlow hhigh,
    fun h hbig hbeyond => getBlockSubsidy_beyond_eras hbig (hinterval h) hbeyond,
    halvings_main_succ hfork,
    fun h hhigh => subsidyHalvingWeightTerms_main_int hfork hhigh,
    fun H => ?_⟩
  obtain ⟨hnonneg, hle⟩ := sum_getBlockSubsidy_main hfork H
  unfold MoneyRange MAX_MONEY COIN at *
  simp only [Bool.and_eq_true, decide_eq_true_eq]
  omega

/-- The emission of the first million blocks with the fork at height 845000. -/
theorem blockSubsidy_schedule_first_million :
    MoneyRange (∑ i ∈ Finset.range 1000000, getBlockSubsidy (mainParamsWithFork 845000) (i + 1)) =
      true :=
  (blockSubsidy_schedule 845000 (by decide)).2.2.2.2.2 1000000

end YuPost.Consensus
