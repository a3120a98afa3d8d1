import YuPost.Consensus.Reward

/-! The value accounting of block validation: `Consensus::CheckTxInputs` of
`consensus/tx_verify.cpp`, the coin view it reads and `UpdateCoins` changes,
the placement rules of `CheckBlock` for the coinbase and the coinstake, and
the loop of `CChainState::ConnectBlock` that sums the fees, the values in and
out and the stake reward, then calls `CheckReward` and checks the money
supply.

The checks of a transaction that read no amounts (BIP68 locks, sigops, the
input scripts, the sender and contract-spend checks) are one parameter,
`checkTx`; the contract execution, which the EVM performs, is another,
`execContract`, returning the refund outputs it owes; a transaction's hash is
a parameter `txid`. `nValueIn`, `nValueOut` and the money supply are
`uint64_t` in the source and integers here. -/

namespace YuPost.Validation

open YuPost.Lib YuPost.Primitives YuPost.Script YuPost.Consensus

structure Coin where
  out : CTxOut
  nHeight : Int
  fCoinBase : Bool
  fCoinStake : Bool

/-- A `CCoinsViewCache`: the unspent coin at each outpoint. -/
abbrev CoinsView := COutPoint → Option Coin

/-- The value `AccessCoin` reads at an outpoint: that of the empty coin, whose
output is null (`nValue` of -1), where none is unspent. -/
def accessValue (inputs : CoinsView) (prevout : COutPoint) : Int :=
  ((inputs prevout).map fun coin => coin.out.nValue.toInt).getD (-1)

def haveInputs (inputs : CoinsView) (tx : CTransaction) : Bool :=
  tx.isCoinBase || tx.vin.all fun txin => (inputs txin.prevout).isSome

def getValueIn (inputs : CoinsView) (tx : CTransaction) : Int :=
  if tx.isCoinBase then 0 else (tx.vin.map fun txin => accessValue inputs txin.prevout).sum

/-- The loop of `CheckTxInputs` over the inputs: maturity of spent coinbases
and coinstakes, and the range of each value and of the running sum. -/
def sumInputValues (p : Params) (inputs : CoinsView) (nSpendHeight : Int) :
    Int → List CTxIn → Except String Int
  | nValueIn, [] => pure nValueIn
  | nValueIn, txin :: vin => do
    -- `HaveInputs` held, so every coin is there; the source asserts it
    let some coin := inputs txin.prevout | throw "bad-txns-inputs-missingorspent"
    if (coin.fCoinBase || coin.fCoinStake) &&
        nSpendHeight - coin.nHeight < p.coinbaseMaturity nSpendHeight then
      throw "bad-txns-premature-spend-of-coinbase"
    let nValueIn := nValueIn + coin.out.nValue.toInt
    if !MoneyRange coin.out.nValue.toInt || !MoneyRange nValueIn then
      throw "bad-txns-inputvalues-outofrange"
    sumInputValues p inputs nSpendHeight nValueIn vin

/-- `Consensus::CheckTxInputs`, returning the fee. A coinstake is exempt from
the comparison of its outputs with its inputs and pays no fee. -/
def checkTxInputs (p : Params) (tx : CTransaction) (inputs : CoinsView) (nSpendHeight : Int) :
    Except String Int := do
  if !haveInputs inputs tx then throw "bad-txns-inputs-missingorspent"
  let nValueIn ← sumInputValues p inputs nSpendHeight 0 tx.vin
  if tx.isCoinStake then return 0
  let some value_out := tx.getValueOut | throw "GetValueOut: value out of range"
  if nValueIn < value_out then throw "bad-txns-in-belowout"
  let txfee_aux := nValueIn - value_out
  if !MoneyRange txfee_aux then throw "bad-txns-fee-outofrange"
  return txfee_aux

def spendCoins (view : CoinsView) (outpoints : List COutPoint) : CoinsView :=
  fun outpoint => if outpoint ∈ outpoints then none else view outpoint

/-- `AddCoins`: output `i` of the transaction becomes the coin at
`COutPoint(txid, i)`. -/
def addCoins (txid : CTransaction → uint256) (tx : CTransaction) (nHeight : Int) (view : CoinsView) :
    CoinsView := fun outpoint =>
  match tx.vout[outpoint.n.toNat]? with
  | some out =>
    if outpoint.hash = txid tx then some ⟨out, nHeight, tx.isCoinBase, tx.isCoinStake⟩
    else view outpoint
  | none => view outpoint

def updateCoins (txid : CTransaction → uint256) (tx : CTransaction) (view : CoinsView) (nHeight : Int) :
    CoinsView :=
  addCoins txid tx nHeight (if tx.isCoinBase then view else spendCoins view (tx.vin.map (·.prevout)))

def witnessCommitmentHeader : List UInt8 := [OP_RETURN, 0x24, 0xaa, 0x21, 0xa9, 0xed]

/-- `GetWitnessCommitmentIndex`: the last output of the coinbase that carries
a witness commitment. -/
def getWitnessCommitmentIndex (block : CBlock) : Option Nat :=
  match block.vtx with
  | [] => none
  | coinbase :: _ =>
    (List.range coinbase.vout.length).foldl (fun commitpos o =>
      match coinbase.vout[o]? with
      | some txout =>
        if txout.scriptPubKey.length ≥ 38 ∧ txout.scriptPubKey.take 6 = witnessCommitmentHeader then
          some o
        else commitpos
      | none => commitpos) none

/-- `CheckFirstCoinstakeOutput`: the coinbase of a proof-of-stake block pays
nothing. -/
def checkFirstCoinstakeOutput (block : CBlock) : Bool :=
  match block.vtx with
  | [] => false
  | coinbase :: _ =>
    match getWitnessCommitmentIndex block, coinbase.vout with
    | none, [first] => first.isEmpty
    | some _, [first, second] => first.isEmpty && second.nValue == 0
    | _, _ => false

/-- The rules of `CheckBlock` on the block's first transactions: one coinbase,
first; in a proof-of-stake block an empty coinbase, then the coinstake, which
spends the header's `prevoutStake` unless the block has a proof of
delegation, and no other coinstake. The transactions' own checks, the merkle
root, the signature and the contract opcodes of the coinbase and coinstake
are left out. -/
def checkBlock (block : CBlock) : Except String Unit :=
  match block.vtx with
  | [] => throw "bad-cb-missing"
  | coinbase :: rest => do
    if !coinbase.isCoinBase then throw "bad-cb-missing"
    if rest.any (·.isCoinBase) then throw "bad-cb-multiple"
    if block.isProofOfStake then
      if !checkFirstCoinstakeOutput block then throw "bad-cb-missing"
      match rest with
      | [] => throw "bad-cs-missing"
      | coinstake :: others =>
        if !coinstake.isCoinStake then throw "bad-cs-missing"
        if !block.hasProofOfDelegation &&
            coinstake.vin.head?.map (·.prevout) != some block.prevoutStake then
          throw "bad-cs-invalid"
        if others.any (·.isCoinStake) then throw "bad-cs-multiple"

/-- What `ConnectBlock` carries from one transaction to the next. -/
structure ConnectState where
  view : CoinsView
  nFees : Int
  nActualStakeReward : Int
  nValueIn : Int
  nValueOut : Int
  gasRefunds : Int
  checkVouts : List CTxOut

section Connect

variable (p : Params) (txid : CTransaction → uint256)
  (checkTx : CTransaction → CoinsView → Except String Unit)
  (execContract : CTransaction → CoinsView → Except String (List CTxOut))
  (nHeight : Int)

/-- One turn of the transaction loop of `ConnectBlock`. -/
def connectTx (s : ConnectState) (tx : CTransaction) : Except String ConnectState := do
  let nFees ← if !tx.isCoinBase then do
      let txfee ← checkTxInputs p tx s.view nHeight
      let nFees := s.nFees + txfee
      if !MoneyRange nFees then throw "bad-txns-accumulated-fee-outofrange"
      pure nFees
    else pure s.nFees
  checkTx tx s.view
  let some nTxValueOut := tx.getValueOut | throw "GetValueOut: value out of range"
  let nTxValueIn := getValueIn s.view tx
  let nActualStakeReward :=
    if !tx.isCoinBase && tx.isCoinStake then nTxValueOut - nTxValueIn else s.nActualStakeReward
  let (nValueIn, nValueOut) :=
    if tx.isCoinBase then (s.nValueIn, s.nValueOut + nTxValueOut)
    else (s.nValueIn + nTxValueIn, s.nValueOut + nTxValueOut)
  let refundOutputs ← execContract tx s.view
  pure { view := updateCoins txid tx s.view nHeight, nFees, nActualStakeReward, nValueIn, nValueOut,
         gasRefunds := s.gasRefunds + totalValue refundOutputs,
         checkVouts := s.checkVouts ++ refundOutputs }

/-- The value of the coin the coinstake of a proof-of-stake block spends. -/
def stakeCoinValue (block : CBlock) (view : CoinsView) : Except String Int :=
  if block.isProofOfStake then
    match (block.vtx[1]?).bind (·.vin.head?) >>= fun txin => view txin.prevout with
    | some coin => pure coin.out.nValue.toInt
    | none => throw "stake-prevout-not-exist"
  else pure 0

/-- `ConnectBlock` from the stake prevout to the money-supply check; the new
state and the new money supply. -/
def connectBlock (addMPoSScript : Int → Option BlockScript) (fMineBlocksOnDemand : Bool)
    (delegateOutputExist : Bool) (block : CBlock) (prevMoneySupply : Int) (view : CoinsView) :
    Except String (ConnectState × Int) := do
  let nValueCoinPrev ← stakeCoinValue block view
  let s ← block.vtx.foldlM (connectTx p txid checkTx execContract nHeight) ⟨view, 0, 0, 0, 0, 0, []⟩
  if s.nFees < s.gasRefunds then throw "bad-blk-fees-greater-gasrefund"
  if (checkReward addMPoSScript block nHeight p s.nFees s.gasRefunds s.nActualStakeReward s.checkVouts
      nValueCoinPrev delegateOutputExist).isOk = false then
    throw "block-reward-invalid"
  let nMoneySupply := prevMoneySupply + s.nValueOut - s.nValueIn
  -- only checked on the main and test networks, past the first 5000 blocks
  if nHeight > 5000 && !fMineBlocksOnDemand &&
      nMoneySupply > (100000000 + (nHeight - 5000) * 4) * COIN then
    throw "incorrect-money-supply"
  pure (s, nMoneySupply)

end Connect

/-- A proof-of-work block at height 1000 of the main network whose second
transaction has the shape of a coinstake: `CheckTxInputs` does not compare
its outputs with its inputs, `CheckBlock` looks for coinstakes only in
proof-of-stake blocks, and `CheckReward` bounds only the coinbase of a
proof-of-work block, so the block pays out one coin more than its subsidy. -/
theorem connectBlock_pow_coinstake_mints :
    let spent : COutPoint := ⟨⟨List.replicate 32 1, by simp⟩, 0⟩
    let view : CoinsView := fun outpoint =>
      if outpoint = spent then some ⟨⟨Int64.ofInt (20000 * COIN), [OP_1]⟩, 400, true, false⟩ else none
    let nullPrevout : COutPoint := ⟨⟨List.replicate 32 0, by simp⟩, 0xffffffff⟩
    let coinbase : CTransaction :=
      ⟨1, [⟨nullPrevout, [0x02, 0xe8, 0x03], 0xffffffff⟩], [⟨Int64.ofInt (20000 * COIN), [OP_1]⟩], 0⟩
    let coinstake : CTransaction :=
      ⟨1, [⟨spent, [], 0xffffffff⟩], [⟨0, []⟩, ⟨Int64.ofInt (20001 * COIN), [OP_1]⟩], 0⟩
    let block : CBlock := ⟨nullPrevout, false, [coinbase, coinstake]⟩
    (checkBlock block).isOk = true ∧
    ((connectBlock mainParams (fun _ => ⟨List.replicate 32 2, by simp⟩) (fun _ _ => pure ())
        (fun _ _ => pure []) 1000 (fun _ => none) false false block (999 * (20000 * COIN)) view).toOption.map
      fun r => r.1.nValueOut - r.1.nValueIn) = some (20001 * COIN) ∧
    getBlockSubsidy mainParams 1000 = 20000 * COIN := by
  decide

end YuPost.Validation
