import Mathlib.Tactic.LinearCombination
import Mathlib.Tactic.Ring
import YuPost.Lib.Fallible
import YuPost.Primitives.Transaction

/-! Block rewards: `GetBlockSubsidy` and the consensus parameters it reads,
the split of a proof-of-stake reward between the staker, the MPoS recipients
and the delegates (`SplitOfflineStakeReward`, `GetMPoSOutputs`,
`CreateMPoSOutputs` of `pos.cpp`), the reward part of the wallet's
`CreateCoinStake` and `CreateCoinStakeFromDelegate`, and `CheckReward` of
`validation.cpp`.

The MPoS recipients are read from the block index and the block tree database
by `AddMPoSScript`; that function is a parameter `addMPoSScript`, the script it
appends for a height or `none` where it returns false. Amounts are `CAmount`
values as integers; where one becomes an output value it is cut to 64 bits. -/

namespace YuPost.Consensus

open YuPost.Lib YuPost.Primitives YuPost.Script

/-- The fields of `Consensus::Params` the reward code reads. -/
structure Params where
  nLastBigReward : Int
  nSubsidyHalvingInterval : Int
  nSubsidyHalvingIntervalV2 : Int
  nReduceBlocktimeHeight : Int
  nBlocktimeDownscaleFactor : Int
  nCoinbaseMaturity : Int
  nRBTCoinbaseMaturity : Int
  nLastPOWBlock : Int
  nMPoSRewardRecipients : Int
  nFirstMPoSBlock : Int
  nLastMPoSBlock : Int

namespace Params

def subsidyHalvingInterval (p : Params) (height : Int) : Int :=
  if height < p.nReduceBlocktimeHeight then p.nSubsidyHalvingInterval else p.nSubsidyHalvingIntervalV2

def blocktimeDownscaleFactor (p : Params) (height : Int) : Int :=
  if height < p.nReduceBlocktimeHeight then 1 else p.nBlocktimeDownscaleFactor

def subsidyHalvingWeight (p : Params) (height : Int) : Int :=
  if height ≤ p.nLastBigReward then 0
  else
    let blocktimeDownscaleFactor := p.blocktimeDownscaleFactor height
    let blockCount := height - p.nLastBigReward
    let beforeDownscale :=
      if blocktimeDownscaleFactor = 1 then 0 else p.nReduceBlocktimeHeight - p.nLastBigReward - 1
    blockCount - beforeDownscale + beforeDownscale * blocktimeDownscaleFactor

def coinbaseMaturity (p : Params) (height : Int) : Int :=
  if height < p.nReduceBlocktimeHeight then p.nCoinbaseMaturity else p.nRBTCoinbaseMaturity

end Params

/-- The main network's parameters, from `CMainParams`. -/
def mainParams : Params where
  nLastBigReward := 5000
  nSubsidyHalvingInterval := 985500
  nSubsidyHalvingIntervalV2 := 4 * 985500
  nReduceBlocktimeHeight := 845000
  nBlocktimeDownscaleFactor := 4
  nCoinbaseMaturity := 500
  nRBTCoinbaseMaturity := 4 * 500
  nLastPOWBlock := 5000
  nMPoSRewardRecipients := 10
  nFirstMPoSBlock := 5000 + 10 + 500
  nLastMPoSBlock := 679999

def getBlockSubsidy (p : Params) (nHeight : Int) : Int :=
  if nHeight ≤ p.nLastBigReward then 20000 * COIN
  else
    let halvings := (p.subsidyHalvingWeight nHeight - 1).tdiv (p.subsidyHalvingInterval nHeight)
    -- the source forces the reward to zero where the shift would be undefined
    if halvings ≥ 7 then 0
    else (4 * COIN).tdiv (p.blocktimeDownscaleFactor nHeight) >>> halvings.toNat

theorem getBlockSubsidy_le (p : Params) (nHeight : Int) : getBlockSubsidy p nHeight ≤ 20000 * COIN := by
  have hcoin : (0 : Int) ≤ 4 * COIN := by decide
  unfold getBlockSubsidy
  dsimp only
  split_ifs
  · exact le_refl _
  · decide
  · -- the shift only brings the value towards zero, and `4 * COIN` divided by
    -- anything is at most `4 * COIN`
    have hdiv := Int.tdiv_le_self (p.blocktimeDownscaleFactor nHeight) hcoin
    generalize (4 * COIN).tdiv (p.blocktimeDownscaleFactor nHeight) = nSubsidy at hdiv ⊢
    rcases le_total 0 nSubsidy with hpos | hneg
    · have := Int.shiftRight_le_of_nonneg (s := (((p.subsidyHalvingWeight nHeight - 1).tdiv
        (p.subsidyHalvingInterval nHeight)).toNat)) hpos
      unfold COIN at *
      omega
    · have := Int.shiftRight_le_of_nonpos (s := (((p.subsidyHalvingWeight nHeight - 1).tdiv
        (p.subsidyHalvingInterval nHeight)).toNat)) hneg
      unfold COIN at *
      omega

/-- `SplitOfflineStakeReward`: the delegate's and the staker's parts of a
reward, the staker taking `fee` percent; `none` for a fee above 100. -/
def splitOfflineStakeReward (nReward : Int) (fee : UInt8) : Option (Int × Int) :=
  if fee.toNat > 100 then none
  else
    let nRewardStaker := (nReward * fee.toNat).tdiv 100
    some (nReward - nRewardStaker, nRewardStaker)

def isDelegateOutputExist (inFee : Int) : Bool := 0 ≤ inFee && inFee < 100

structure BlockScript where
  stakerScript : CScript
  delegateScript : CScript
  fee : UInt8
  hasDelegate : Bool

/-- `GetMPoSOutputScripts`: the recipients of the `nMPoSRewardRecipients - 1`
blocks that end one coinbase maturity before `nHeight`. -/
def getMPoSOutputScripts (addMPoSScript : Int → Option BlockScript) (p : Params) (nHeight : Int) :
    Option (List BlockScript) :=
  let nHeight := nHeight - p.coinbaseMaturity (nHeight + 1)
  (List.range (p.nMPoSRewardRecipients - 1).toNat).mapM fun (i : Nat) => addMPoSScript (nHeight - i)

/-- The outputs `GetMPoSOutputs` makes for one recipient. -/
def mposOutputsFor (nRewardPiece : Int) (blockScript : BlockScript) : Option (List CTxOut) :=
  if blockScript.hasDelegate then
    (splitOfflineStakeReward nRewardPiece blockScript.fee).map fun (nRewardDelegate, nRewardStaker) =>
      ⟨Int64.ofInt nRewardStaker, blockScript.stakerScript⟩ ::
        if isDelegateOutputExist blockScript.fee.toNat then
          [⟨Int64.ofInt nRewardDelegate, blockScript.delegateScript⟩]
        else []
  else some [⟨Int64.ofInt nRewardPiece, blockScript.stakerScript⟩]

def getMPoSOutputs (addMPoSScript : Int → Option BlockScript) (nRewardPiece nHeight : Int)
    (p : Params) : Option (List CTxOut) := do
  let mposScriptList ← getMPoSOutputScripts addMPoSScript p nHeight
  let outputs ← mposScriptList.mapM (mposOutputsFor nRewardPiece)
  pure outputs.flatten

/-- `CreateMPoSOutputs`: the outputs of `GetMPoSOutputs` appended to the
coinstake's. -/
def createMPoSOutputs (addMPoSScript : Int → Option BlockScript) (vout : List CTxOut)
    (nRewardPiece nHeight : Int) (p : Params) : Option (List CTxOut) :=
  (getMPoSOutputs addMPoSScript nRewardPiece nHeight p).map (vout ++ ·)

/-! ### The parts of a split add up

Every amount below is at most the money supply plus one first-era subsidy,
so the products and the output values stay within 64 bits. -/

theorem splitOfflineStakeReward_spec {nReward : Int} {fee : UInt8} {nRewardOffline nRewardStaker : Int}
    (h : splitOfflineStakeReward nReward fee = some (nRewardOffline, nRewardStaker)) :
    fee.toNat ≤ 100 ∧ nRewardStaker = (nReward * fee.toNat).tdiv 100 ∧
      nRewardOffline = nReward - nRewardStaker := by
  unfold splitOfflineStakeReward at h
  split_ifs at h with hfee
  cases h
  exact ⟨by omega, rfl, rfl⟩

theorem stakerPart_bounds {nReward : Int} (h : 0 ≤ nReward) {fee : Nat} (hfee : fee ≤ 100) :
    0 ≤ (nReward * fee).tdiv 100 ∧ (nReward * fee).tdiv 100 ≤ nReward := by
  have hle : nReward * fee ≤ nReward * 100 := Int.mul_le_mul_of_nonneg_left (by omega) h
  have hpos : 0 ≤ nReward * fee := Int.mul_nonneg h (by omega)
  rw [Int.tdiv_eq_ediv_of_nonneg hpos]
  generalize nReward * fee = m at *
  omega

theorem splitOfflineStakeReward_paid {nReward : Int} {fee : UInt8} {nRewardOffline nRewardStaker : Int}
    (h : splitOfflineStakeReward nReward fee = some (nRewardOffline, nRewardStaker)) :
    nRewardStaker + (if isDelegateOutputExist fee.toNat then nRewardOffline else 0) = nReward := by
  obtain ⟨hfee, hstaker, hoffline⟩ := splitOfflineStakeReward_spec h
  split_ifs with hexist
  · omega
  · have h100 : fee.toNat = 100 := by
      simp only [isDelegateOutputExist, Bool.and_eq_true, decide_eq_true_eq, not_and] at hexist
      omega
    rw [hstaker, h100, Int.add_zero]
    exact Int.mul_tdiv_cancel nReward (by decide : (100 : Int) ≠ 0)

section Piece

variable {nRewardPiece : Int} (hpiece : 0 ≤ nRewardPiece ∧ nRewardPiece < 2 ^ 63)
include hpiece

theorem totalValue_mposOutputsFor {blockScript : BlockScript} {outs : List CTxOut}
    (h : mposOutputsFor nRewardPiece blockScript = some outs) : totalValue outs = nRewardPiece := by
  have hvalue : ∀ x, 0 ≤ x → x ≤ nRewardPiece → (Int64.ofInt x).toInt = x := fun x hx hle =>
    Int64.toInt_ofInt_of_le (by omega) (by omega)
  unfold mposOutputsFor at h
  by_cases hdelegate : blockScript.hasDelegate
  · rw [if_pos hdelegate] at h
    obtain ⟨⟨nRewardDelegate, nRewardStaker⟩, hsplit, rfl⟩ := Option.map_eq_some_iff.mp h
    obtain ⟨hfee, hstaker, hoffline⟩ := splitOfflineStakeReward_spec hsplit
    have hbounds := stakerPart_bounds hpiece.1 hfee
    rw [← hstaker] at hbounds
    have hpaid := splitOfflineStakeReward_paid hsplit
    by_cases hexist : isDelegateOutputExist blockScript.fee.toNat
    · rw [if_pos hexist] at hpaid
      simp only [hexist, if_true, totalValue_cons, totalValue_nil, hvalue _ hbounds.1 hbounds.2,
        hvalue nRewardDelegate (by omega) (by omega)]
      omega
    · rw [if_neg hexist] at hpaid
      simp only [hexist, Bool.false_eq_true, if_false, totalValue_cons, totalValue_nil,
        hvalue _ hbounds.1 hbounds.2]
      omega
  · rw [if_neg hdelegate] at h
    cases h
    simp [hvalue _ hpiece.1 le_rfl]

theorem totalValue_getMPoSOutputs {addMPoSScript : Int → Option BlockScript} {nHeight : Int}
    {p : Params} {outs : List CTxOut}
    (h : getMPoSOutputs addMPoSScript nRewardPiece nHeight p = some outs) :
    totalValue outs = (p.nMPoSRewardRecipients - 1).toNat * nRewardPiece := by
  simp only [getMPoSOutputs, Option.bind_eq_bind, Option.bind_eq_some_iff, Option.pure_def,
    Option.some.injEq] at h
  obtain ⟨scripts, hscripts, outss, houtss, rfl⟩ := h
  have hlength : scripts.length = (p.nMPoSRewardRecipients - 1).toNat := by
    rw [length_eq_of_mapM_eq_some hscripts, List.length_range]
  have heach : outss.map totalValue = List.replicate outss.length nRewardPiece := by
    refine List.eq_replicate_iff.mpr ⟨List.length_map _, fun v hv => ?_⟩
    obtain ⟨outs, hmem, rfl⟩ := List.mem_map.mp hv
    obtain ⟨blockScript, -, hfor⟩ := exists_of_mem_of_mapM_eq_some houtss hmem
    exact totalValue_mposOutputsFor hpiece hfor
  rw [totalValue_flatten, heach, List.sum_replicate, length_eq_of_mapM_eq_some houtss, hlength,
    nsmul_eq_mul]

end Piece

/-- The reward part of `CWallet::CreateCoinStake`: what the staker's credit
grows by, and the piece each MPoS recipient gets; `none` for a negative
reward. -/
def createCoinStakeReward (p : Params) (nPrevHeight nTotalFees : Int) : Option (Int × Int) :=
  let nReward := nTotalFees + getBlockSubsidy p (nPrevHeight + 1)
  if nReward < 0 then none
  else if nPrevHeight < p.nFirstMPoSBlock ∨ nPrevHeight ≥ p.nLastMPoSBlock then some (nReward, 0)
  else
    let nRewardPiece := nReward.tdiv p.nMPoSRewardRecipients
    some (nRewardPiece + nReward.tmod p.nMPoSRewardRecipients, nRewardPiece)

/-- The reward part of `CWallet::CreateCoinStakeFromDelegate`: the staker's
share is split again with the delegation fee, into the super staker's part
(added to its coin) and the delegate's part, beside the MPoS piece. -/
def createCoinStakeFromDelegateReward (p : Params) (nPrevHeight nTotalFees : Int) (fee : UInt8) :
    Option (Int × Int × Int) :=
  let nTotalReward := nTotalFees + getBlockSubsidy p (nPrevHeight + 1)
  if nTotalReward < 0 then none
  else if nPrevHeight < p.nFirstMPoSBlock ∨ nPrevHeight ≥ p.nLastMPoSBlock then
    (splitOfflineStakeReward nTotalReward fee).map fun (nRewardOffline, nRewardStaker) =>
      (nRewardStaker, nRewardOffline, 0)
  else
    let nRewardPiece := nTotalReward.tdiv p.nMPoSRewardRecipients
    let nReward := nRewardPiece + nTotalReward.tmod p.nMPoSRewardRecipients
    (splitOfflineStakeReward nReward fee).map fun (nRewardOffline, nRewardStaker) =>
      (nRewardStaker, nRewardOffline, nRewardPiece)

theorem createCoinStakeFromDelegateReward_eq (p : Params) (nPrevHeight nTotalFees : Int) (fee : UInt8) :
    createCoinStakeFromDelegateReward p nPrevHeight nTotalFees fee =
      (createCoinStakeReward p nPrevHeight nTotalFees).bind fun (nReward, nRewardPiece) =>
        (splitOfflineStakeReward nReward fee).map fun (nRewardOffline, nRewardStaker) =>
          (nRewardStaker, nRewardOffline, nRewardPiece) := by
  unfold createCoinStakeFromDelegateReward createCoinStakeReward
  dsimp only
  split_ifs <;> rfl

/-- The recipients of the reward of the block after `nPrevHeight`. -/
def rewardRecipientsAt (p : Params) (nPrevHeight : Int) : Int :=
  if nPrevHeight ≥ p.nFirstMPoSBlock ∧ nPrevHeight < p.nLastMPoSBlock then p.nMPoSRewardRecipients
  else 1

/-- `CheckReward`. `vouts` are the gas refunds the block's contracts owe; the
source indexes the reward transaction and its outputs unchecked, which
`CheckBlock` and `CheckDelegationOutput` make safe, and the model rejects
where an index is missing. -/
def checkReward (addMPoSScript : Int → Option BlockScript) (block : CBlock) (nHeight : Int)
    (p : Params) (nFees gasRefunds nActualStakeReward : Int) (vouts : List CTxOut)
    (nValueCoinPrev : Int) (delegateOutputExist : Bool) : Except String Unit := do
  let offset := if block.isProofOfStake then 1 else 0
  let some rewardTx := block.vtx[offset]? | throw "missing reward transaction"
  let some vTempVouts := eraseEach rewardTx.vout vouts | throw "bad-gas-refund-missing"
  let blockReward := nFees + getBlockSubsidy p nHeight
  if !block.isProofOfStake then
    let some valueOut := rewardTx.getValueOut | throw "GetValueOut: value out of range"
    if valueOut > blockReward then throw "bad-cb-amount"
  else
    if nActualStakeReward > blockReward then throw "bad-cs-amount"
    let rewardRecipients := rewardRecipientsAt p (nHeight - 1)
    if rewardRecipients < 1 then throw "invalid reward recipients"
    if blockReward < gasRefunds then throw "bad-cs-gas-greater-than-reward"
    let splitReward := (blockReward - gasRefunds).tdiv rewardRecipients
    if block.hasProofOfDelegation then
      let nReward := blockReward - gasRefunds - splitReward * (rewardRecipients - 1)
      let some staker := rewardTx.vout[1]? | throw "missing staker output"
      let nValueDelegate ← if delegateOutputExist then
          match rewardTx.vout[2]? with
          | some delegate => pure delegate.nValue.toInt
          | none => throw "missing delegate output"
        else pure 0
      let nMinedReward := staker.nValue.toInt + nValueDelegate - nValueCoinPrev
      if nReward ≠ nMinedReward then throw "bad-cs-delegate-reward"
    if rewardRecipients = 1 then return
    let some mposOutputList := getMPoSOutputs addMPoSScript splitReward (nHeight - 1) p
      | throw "cannot create the list of MPoS outputs"
    if (eraseEach vTempVouts mposOutputList).isNone then throw "bad-cs-mpos-missing"

theorem piece_add_tmod_eq (nTotalReward n : Int) :
    nTotalReward.tdiv n + nTotalReward.tmod n = nTotalReward - nTotalReward.tdiv n * (n - 1) := by
  have h := Int.mul_tdiv_add_tmod nTotalReward n
  linear_combination h

end YuPost.Consensus
