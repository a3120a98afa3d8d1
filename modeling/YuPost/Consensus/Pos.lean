import YuPost.Validation.ConnectBlock
import YuPost.Primitives.ArithUint256

/-! Proof-of-stake checks of `pos.cpp` on a delegated stake: the fee the
validator reads back from the coinstake (`GetDelegationFeeTx`), which
`CheckProofOfStake` compares with the fee of the delegation contract. The
super staker splits the reward with `SplitOfflineStakeReward`, rounding its own
part down; the validator recovers the percentage rounding up. Amounts are
`CAmount` values as integers, and C++ division of integers is `Int.tdiv`.

Then the kernel check `CheckStakeKernelHash`: before the block-time fork the
target is weighted by the stake in 256-bit arithmetic, after it the kernel
hash is divided by the stake instead. -/

namespace YuPost.Consensus

open YuPost.Lib YuPost.Primitives YuPost.Validation

/-- `GetDelegationFeeTx`: the percentage of the reward the staker output keeps,
rounded up; -1 where the transaction is not a coinstake of enough outputs or
there is no reward. -/
def getDelegationFeeTx (tx : CTransaction) (coin : Coin) (delegateOutputExist : Bool) : Int :=
  let nValueCoin := coin.out.nValue.toInt
  let minVoutSize := if delegateOutputExist then 3 else 2
  if !tx.isCoinStake || decide (tx.vout.length < minVoutSize) || decide (nValueCoin ≤ 0) then -1
  else
    -- the size check makes both reads defined
    let nValueStaker := ((tx.vout[1]?).map (·.nValue.toInt)).getD 0 - nValueCoin
    let nValueDelegate :=
      if delegateOutputExist then ((tx.vout[2]?).map (·.nValue.toInt)).getD 0 else 0
    let nReward := nValueStaker + nValueDelegate
    if nReward ≤ 0 then -1 else (nValueStaker * 100 + nReward - 1).tdiv nReward

theorem ediv_neg_of_neg_of_pos {a b : Int} (ha : a < 0) (hb : 0 < b) : a / b < 0 := by
  have hdiv := Int.emod_def a b
  have hmod := Int.emod_nonneg a hb.ne'
  by_contra hnonneg
  have := Int.mul_nonneg hb.le (Int.not_lt.mp hnonneg)
  omega

/-- Rounding up the percentage of a part rounded down gives the percentage
back exactly when what the rounding down dropped, `nReward * fee % 100`, is
less than the reward. -/
theorem ceil_percent_of_floor_percent {nReward fee : Int} (hreward : 0 < nReward) (hfee : 0 ≤ fee) :
    ((nReward * fee).tdiv 100 * 100 + nReward - 1).tdiv nReward = fee ↔
      nReward * fee % 100 < nReward := by
  have hprod : 0 ≤ nReward * fee := Int.mul_nonneg hreward.le hfee
  rw [Int.tdiv_eq_ediv_of_nonneg hprod]
  -- `P / 100 * 100 = P - P % 100`, so the dividend is `fee * nReward` plus a rest
  have hx : nReward * fee / 100 * 100 + nReward - 1 =
      (nReward - 1 - nReward * fee % 100) + fee * nReward := by
    rw [Int.mul_comm fee nReward]
    omega
  rw [Int.tdiv_eq_ediv_of_nonneg (by omega), hx, Int.add_mul_ediv_right _ _ hreward.ne']
  constructor
  · intro h
    by_contra hge
    have := ediv_neg_of_neg_of_pos (show nReward - 1 - nReward * fee % 100 < 0 by omega) hreward
    omega
  · intro h
    rw [Int.ediv_eq_zero_of_lt (by omega) (by omega), Int.zero_add]

theorem lt_length_of_map_getElem?_eq_some {α β : Type} {l : List α} {n : Nat} {f : α → β} {b : β}
    (h : (l[n]?).map f = some b) : n < l.length := by
  obtain ⟨a, ha, -⟩ := Option.map_eq_some_iff.mp h
  exact (List.getElem?_eq_some_iff.mp ha).1

/-- The fee read back from a coinstake that pays the staker its coin and its
part of the split, and the delegate the rest where the fee leaves it one, is
the fee of the split exactly when what the split's rounding dropped is less
than the reward. -/
theorem delegationFee_matches_split {tx : CTransaction} {coin : Coin} {nReward : Int} {fee : UInt8}
    {nRewardOffline nRewardStaker : Int} (hreward : 0 < nReward)
    (hsplit : splitOfflineStakeReward nReward fee = some (nRewardOffline, nRewardStaker))
    (hcoin : 0 < coin.out.nValue.toInt) (hstake : tx.isCoinStake = true)
    (hstaker : (tx.vout[1]?).map (·.nValue.toInt) = some (coin.out.nValue.toInt + nRewardStaker))
    (hdelegate : isDelegateOutputExist fee.toNat = true →
      (tx.vout[2]?).map (·.nValue.toInt) = some nRewardOffline) :
    getDelegationFeeTx tx coin (isDelegateOutputExist fee.toNat) = fee.toNat ↔
      nReward * fee.toNat % 100 < nReward := by
  obtain ⟨-, hs, -⟩ := splitOfflineStakeReward_spec hsplit
  have hpaid := splitOfflineStakeReward_paid hsplit
  have hlen : ¬tx.vout.length < if isDelegateOutputExist fee.toNat then 3 else 2 := by
    split_ifs with hexist
    · exact Nat.not_lt.mpr (lt_length_of_map_getElem?_eq_some (hdelegate hexist))
    · exact Nat.not_lt.mpr (lt_length_of_map_getElem?_eq_some hstaker)
  -- what the validator reads: the staker's part, and the delegate's where it has an output
  have hstakerPart : ((tx.vout[1]?).map (·.nValue.toInt)).getD 0 - coin.out.nValue.toInt =
      nRewardStaker := by
    rw [hstaker, Option.getD_some]
    omega
  have hdelegatePart : (if isDelegateOutputExist fee.toNat then
      ((tx.vout[2]?).map (·.nValue.toInt)).getD 0 else 0) =
      if isDelegateOutputExist fee.toNat then nRewardOffline else 0 := by
    split_ifs with hexist
    · rw [hdelegate hexist, Option.getD_some]
    · rfl
  unfold getDelegationFeeTx
  dsimp only
  rw [hstakerPart, hdelegatePart, hpaid, if_neg (by simp [hstake, hlen, Int.not_le.mpr hcoin]),
    if_neg (Int.not_le.mpr hreward), hs]
  exact ceil_percent_of_floor_percent hreward (by omega)

/-- A reward of 1000 split at a fee of 10: 100 to the staker, 900 to the
delegate. -/
theorem delegationFee_matches_split_on_tenth :
    getDelegationFeeTx ⟨1, [⟨⟨⟨List.replicate 32 1, rfl⟩, 0⟩, [], 0⟩],
        [⟨0, []⟩, ⟨600, []⟩, ⟨900, []⟩], 0⟩ ⟨⟨500, []⟩, 1, false, true⟩
        (isDelegateOutputExist (10 : UInt8).toNat) = (10 : UInt8).toNat := by
  have h := @delegationFee_matches_split ⟨1, [⟨⟨⟨List.replicate 32 1, rfl⟩, 0⟩, [], 0⟩],
    [⟨0, []⟩, ⟨600, []⟩, ⟨900, []⟩], 0⟩ ⟨⟨500, []⟩, 1, false, true⟩ 1000 10 900 100
    (by decide) (by decide) (by decide) (by decide) (by decide) (fun _ => by decide)
  exact h.mpr (by decide)

/-- A reward of one unit split at a fee of 50: the staker's part rounds down to
nothing, the delegate gets the unit, and the fee read back is 0. -/
theorem delegationFee_small_reward_mismatch :
    splitOfflineStakeReward 1 50 = some (1, 0) ∧
      getDelegationFeeTx ⟨1, [⟨⟨⟨List.replicate 32 1, rfl⟩, 0⟩, [], 0⟩],
        [⟨0, []⟩, ⟨1, []⟩, ⟨1, []⟩], 0⟩ ⟨⟨1, []⟩, 1, false, true⟩
        (isDelegateOutputExist (50 : UInt8).toNat) = 0 := by
  decide

/-- What the proof-of-stake checks read of a `CBlockIndex`. -/
structure CBlockIndex where
  nHeight : Int
  nTime : UInt32
  nBits : UInt32
  nStakeModifier : uint256

/-- The stream `CheckStakeKernelHash` hashes. -/
def kernelBytes (nStakeModifier : uint256) (blockFromTime : UInt32) (prevout : COutPoint)
    (nTimeBlock : UInt32) : List UInt8 :=
  nStakeModifier.data ++ serUInt32 blockFromTime ++ serOutPoint prevout ++ serUInt32 nTimeBlock

/-- `CheckStakeKernelHash`, with `hash` for `Hash` of the stream: whether the
kernel meets the target, and what it leaves in `hashProofOfStake` and
`targetProofOfStake`; the division of the hash by a zero weight throws. -/
def checkStakeKernelHash (p : Params) (hash : List UInt8 → uint256) (pindexPrev : CBlockIndex)
    (nBits blockFromTime : UInt32) (prevoutValue : Int64) (prevout : COutPoint) (nTimeBlock : UInt32)
    (hashProofOfStake targetProofOfStake : uint256) : Except String (Bool × uint256 × uint256) :=
  -- transaction timestamp violation
  if nTimeBlock < blockFromTime then pure (false, hashProofOfStake, targetProofOfStake)
  else
    let nHeight := pindexPrev.nHeight + 1
    let fNoBNOverflow := decide (nHeight ≥ p.nReduceBlocktimeHeight)
    -- `arith_uint256(nValueIn)` takes the `int64_t` as a `uint64_t`
    let bnWeight : arith_uint256 := BitVec.ofNat 256 prevoutValue.toBitVec.toNat
    let bnTarget := if fNoBNOverflow then (setCompact nBits).1 else (setCompact nBits).1 * bnWeight
    let hashProofOfStake := hash (kernelBytes pindexPrev.nStakeModifier blockFromTime prevout nTimeBlock)
    let bnProofOfStake := uintToArith256 hashProofOfStake
    (if fNoBNOverflow then divide bnProofOfStake bnWeight else pure bnProofOfStake).map
      fun bnProofOfStake => (!decide (bnProofOfStake > bnTarget), hashProofOfStake, arithToUint256 bnTarget)

section Kernel

variable (p : Params) (hash : List UInt8 → uint256) (pindexPrev : CBlockIndex) (nBits : UInt32)
  {blockFromTime : UInt32} (prevoutValue : Int64) (prevout : COutPoint) {nTimeBlock : UInt32}
  (hashIn targetIn : uint256)

theorem toNat_weight {prevoutValue : Int64} (hvalue : 0 ≤ prevoutValue.toInt) :
    (BitVec.ofNat 256 prevoutValue.toBitVec.toNat).toNat = prevoutValue.toInt.toNat := by
  have hlt := prevoutValue.toBitVec.isLt
  have hnat := toNat_toBitVec_of_nonneg hvalue
  rw [BitVec.toNat_ofNat, Nat.mod_eq_of_lt (by omega)]
  omega

/-- After the fork, on a positive stake, the kernel is accepted exactly when
the hash divided by the stake is within the target, that is when the hash is
below the target plus one times the stake. -/
theorem checkStakeKernelHash_of_fork (hfork : p.nReduceBlocktimeHeight ≤ pindexPrev.nHeight + 1)
    (htime : blockFromTime ≤ nTimeBlock) (hvalue : 0 < prevoutValue.toInt) :
    checkStakeKernelHash p hash pindexPrev nBits blockFromTime prevoutValue prevout nTimeBlock hashIn targetIn =
      .ok (decide (readLE (hash (kernelBytes pindexPrev.nStakeModifier blockFromTime prevout nTimeBlock)).data <
          ((setCompact nBits).1.toNat + 1) * prevoutValue.toInt.toNat),
        hash (kernelBytes pindexPrev.nStakeModifier blockFromTime prevout nTimeBlock),
        arithToUint256 (setCompact nBits).1) := by
  have hweight := toNat_weight hvalue.le
  have hw : 0 < prevoutValue.toInt.toNat := by omega
  have hnonzero : BitVec.ofNat 256 prevoutValue.toBitVec.toNat ≠ 0 := by
    intro h
    have hzero : prevoutValue.toInt.toNat = 0 := by rw [← hweight, h]; rfl
    omega
  unfold checkStakeKernelHash
  rw [if_neg (UInt32.not_lt.mpr htime)]
  simp only [ge_iff_le, hfork, decide_true, if_true]
  rw [divide_eq_ok _ hnonzero]
  -- `⌊H / w⌋ ≤ T` is `H < (T + 1) w`
  have hdiv : ∀ H T w : Nat, 0 < w → (¬ T < H / w ↔ H < (T + 1) * w) := fun H T w hw => by
    rw [Nat.not_lt, ← Nat.lt_succ_iff, Nat.div_lt_iff_lt_mul hw]
  simp only [Except.map, BitVec.lt_def, BitVec.toNat_udiv, hweight, toNat_uintToArith256, gt_iff_lt]
  congr 2
  rw [← decide_not]
  exact decide_eq_decide.mpr (hdiv _ _ _ hw)

theorem checkStakeKernelHash_before_fork (hfork : pindexPrev.nHeight + 1 < p.nReduceBlocktimeHeight)
    (htime : blockFromTime ≤ nTimeBlock) :
    checkStakeKernelHash p hash pindexPrev nBits blockFromTime prevoutValue prevout nTimeBlock hashIn targetIn =
      .ok (decide (readLE (hash (kernelBytes pindexPrev.nStakeModifier blockFromTime prevout nTimeBlock)).data ≤
          (setCompact nBits).1.toNat * prevoutValue.toBitVec.toNat % 2 ^ 256),
        hash (kernelBytes pindexPrev.nStakeModifier blockFromTime prevout nTimeBlock),
        arithToUint256 ((setCompact nBits).1 * BitVec.ofNat 256 prevoutValue.toBitVec.toNat)) := by
  have hweight : (BitVec.ofNat 256 prevoutValue.toBitVec.toNat).toNat = prevoutValue.toBitVec.toNat :=
    Nat.mod_eq_of_lt (Nat.lt_trans prevoutValue.toBitVec.isLt (by decide))
  unfold checkStakeKernelHash
  rw [if_neg (UInt32.not_lt.mpr htime)]
  simp only [ge_iff_le, Int.not_le.mpr hfork, decide_false, Bool.false_eq_true, if_false]
  simp only [Except.map, pure, Except.pure, BitVec.lt_def, BitVec.toNat_mul, hweight, toNat_uintToArith256,
    gt_iff_lt]
  congr 2
  rw [← decide_not]
  exact decide_eq_decide.mpr Nat.not_lt

theorem checkStakeKernelHash_zero_value (hfork : p.nReduceBlocktimeHeight ≤ pindexPrev.nHeight + 1)
    (htime : blockFromTime ≤ nTimeBlock) :
    checkStakeKernelHash p hash pindexPrev nBits blockFromTime 0 prevout nTimeBlock hashIn targetIn =
      .error "Division by zero" := by
  unfold checkStakeKernelHash
  rw [if_neg (UInt32.not_lt.mpr htime)]
  simp only [ge_iff_le, hfork, decide_true, if_true]
  rw [show BitVec.ofNat 256 (0 : Int64).toBitVec.toNat = 0 from rfl, divide_zero]
  rfl

end Kernel

/-- A block at height 900000, past the fork, staking an unspent output of
value zero: the kernel check throws `uint_error` instead of returning. -/
theorem checkStakeKernelHash_zero_stake_throws :
    checkStakeKernelHash mainParams (fun _ => ⟨List.replicate 32 0, rfl⟩)
      ⟨899999, 1600000000, 0x1a00ffff, ⟨List.replicate 32 7, rfl⟩⟩ 0x1a00ffff 1600000000 0
      ⟨⟨List.replicate 32 1, rfl⟩, 0⟩ 1600001600 ⟨List.replicate 32 0, rfl⟩ ⟨List.replicate 32 0, rfl⟩ =
      .error "Division by zero" :=
  checkStakeKernelHash_zero_value _ _ _ _ _ _ _ (by decide) (by decide)

end YuPost.Consensus
