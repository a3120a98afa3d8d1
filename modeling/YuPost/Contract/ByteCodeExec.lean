import Mathlib
import YuPost.Lib.Fallible
import YuPost.Primitives.Transaction

/-! Contract executions and what `ByteCodeExec::processingResults` of
`validation.cpp` makes of their results: the gas the block has used, the
refund of unused gas to each sender, and the transactions returning the value
of a failed call. The EVM is external: its results are inputs here. Before
execution `ConnectBlock` checks the gas of the transaction's contract outputs
against its fee (`checkContractOutputs`).

`dev::u256` values are natural numbers; `uint64_t` and `int64_t` values are
`UInt64` and `Int64`, since the refund is computed in the one and cast to the
other. -/

namespace YuPost.Contract

open YuPost.Lib YuPost.Primitives YuPost.Script

def INT64_MAX : Nat := 2 ^ 63 - 1

def UINT64_MAX : Nat := 2 ^ 64 - 1

def UINT32_MAX : Nat := 2 ^ 32 - 1

def MINIMUM_GAS_LIMIT : Nat := 10000

/-- The kinds of `dev::eth::TransactionException` the code tells apart; every
other kind is `Other`. -/
inductive TransactionException
  | None
  | RevertInstruction
  | Other
deriving DecidableEq, Repr

/-- `VersionVM`, the four fields packed in a little-endian `uint32_t`. -/
structure VersionVM where
  format : Nat
  rootVM : Nat
  vmVersion : Nat
  flagOptions : Nat
deriving DecidableEq, Repr

def VersionVM.fromRaw (val : UInt32) : VersionVM where
  format := val.toNat % 4
  rootVM := val.toNat / 4 % 64
  vmVersion := val.toNat / 256 % 256
  flagOptions := val.toNat / 65536

/-- `VersionVM::toRaw`: the four fields read back as one `uint32_t`. -/
def VersionVM.toRaw (v : VersionVM) : Nat :=
  v.format + 4 * v.rootVM + 256 * v.vmVersion + 65536 * v.flagOptions

def VersionVM.getNoExec : VersionVM := ⟨0, 0, 0, 0⟩

def VersionVM.getEVMDefault : VersionVM := ⟨0, 1, 0, 0⟩

@[simp] theorem VersionVM.toRaw_fromRaw (val : UInt32) : (VersionVM.fromRaw val).toRaw = val.toNat := by
  have := val.toNat_lt
  simp only [toRaw, fromRaw]
  omega

/-- The fields of a `YuPostTransaction` read here; `refundSender` is what
`getRefundSender` returns. -/
structure YuPostTransaction where
  value : Nat
  gasPrice : Nat
  gas : Nat
  version : VersionVM
  sender : List UInt8
  refundSender : List UInt8
  hashWith : uint256
  nVout : UInt32

structure ResultExecute where
  gasUsed : Nat
  excepted : TransactionException
  tx : CTransaction

structure ByteCodeExecResult where
  usedGas : UInt64 := 0
  refundSender : Int64 := 0
  refundOutputs : List CTxOut := []
  valueTransfers : List CTransaction := []

/-- `CScript() << OP_DUP << OP_HASH160 << hash << OP_EQUALVERIFY << OP_CHECKSIG`. -/
def payToPubKeyHash (hash : List UInt8) : CScript :=
  [OP_DUP, OP_HASH160] ++ pushData hash ++ [OP_EQUALVERIFY, OP_CHECKSIG]

/-- `CTransaction()`. -/
def emptyTransaction : CTransaction := ⟨2, [], [], 0⟩

/-- The transaction returning to the sender the coins sent to a contract whose
execution failed; the value is that of the contract output, in `MoneyRange`. -/
def refundValueTransfer (tx : YuPostTransaction) : CTransaction :=
  ⟨2, [⟨⟨tx.hashWith, tx.nVout⟩, [OP_SPEND], 0xffffffff⟩],
    [⟨Int64.ofNat tx.value, payToPubKeyHash tx.sender⟩], 0⟩

/-- Whether the unused gas of an execution goes back to its sender: after a
success, and with QIP7 active (`qip7`, the tip at or past `QIP7Height`)
after a revert too. -/
def refundsGas (qip7 : Bool) (res : ResultExecute) : Bool :=
  res.excepted == .None || (qip7 && res.excepted == .RevertInstruction)

/-- The first branch of the loop body of `processingResults`: a failed
execution returns the value sent with it and is charged its gas, unless it
is a revert refunded under QIP7. -/
def chargeFailed (qip7 : Bool) (bce : ByteCodeExecResult) (tx : YuPostTransaction)
    (res : ResultExecute) : ByteCodeExecResult :=
  if res.excepted != .None then
    let bce := if tx.value > 0 then
        { bce with valueTransfers := bce.valueTransfers ++ [refundValueTransfer tx] }
      else bce
    if !(qip7 && res.excepted == .RevertInstruction) then
      { bce with usedGas := bce.usedGas + UInt64.ofNat res.gasUsed }
    else bce
  else bce

/-- The second branch: the execution is charged its gas and the gas it did
not use, times its price, goes back to the refund sender. -/
def refundUnusedGas (bce : ByteCodeExecResult) (tx : YuPostTransaction) (res : ResultExecute) :
    Option ByteCodeExecResult :=
  if tx.gas > UINT64_MAX || res.gasUsed > UINT64_MAX || tx.gasPrice > UINT64_MAX then none
  else
    let gas := UInt64.ofNat tx.gas
    let gasPrice := UInt64.ofNat tx.gasPrice
    let gasUsed := UInt64.ofNat res.gasUsed
    let bce := { bce with usedGas := bce.usedGas + gasUsed }
    let amount := ((gas - gasUsed) * gasPrice).toInt64
    if amount < 0 then none
    else if amount > 0 then
      some { bce with
        refundOutputs := bce.refundOutputs ++ [⟨amount, payToPubKeyHash tx.refundSender⟩]
        refundSender := bce.refundSender + amount }
    else some bce

/-- The last branch: a value transfer the execution made is kept. -/
def addValueTransfer (bce : ByteCodeExecResult) (res : ResultExecute) : ByteCodeExecResult :=
  if res.tx != emptyTransaction then { bce with valueTransfers := bce.valueTransfers ++ [res.tx] }
  else bce

/-- One turn of the loop of `processingResults`. -/
def processResult (qip7 : Bool) (bce : ByteCodeExecResult) (tx : YuPostTransaction)
    (res : ResultExecute) : Option ByteCodeExecResult := do
  let bce := chargeFailed qip7 bce tx res
  let bce ← if refundsGas qip7 res then refundUnusedGas bce tx res else some bce
  pure (addValueTransfer bce res)

/-- `ByteCodeExec::processingResults`, over the executed transactions and
their results, one for one. -/
def processingResults (qip7 : Bool) (txs : List YuPostTransaction) (results : List ResultExecute) :
    Option ByteCodeExecResult :=
  (txs.zip results).foldlM (fun bce (tx, res) => processResult qip7 bce tx res) {}

@[simp] theorem chargeFailed_usedGas (qip7 : Bool) (bce : ByteCodeExecResult) (tx : YuPostTransaction)
    (res : ResultExecute) :
    (chargeFailed qip7 bce tx res).usedGas =
      if refundsGas qip7 res then bce.usedGas else bce.usedGas + UInt64.ofNat res.gasUsed := by
  unfold chargeFailed refundsGas
  cases res.excepted <;> cases qip7 <;> simp <;> split_ifs <;> rfl

@[simp] theorem chargeFailed_refundOutputs (qip7 : Bool) (bce : ByteCodeExecResult)
    (tx : YuPostTransaction) (res : ResultExecute) :
    (chargeFailed qip7 bce tx res).refundOutputs = bce.refundOutputs := by
  unfold chargeFailed
  split_ifs <;> rfl

@[simp] theorem chargeFailed_refundSender (qip7 : Bool) (bce : ByteCodeExecResult)
    (tx : YuPostTransaction) (res : ResultExecute) :
    (chargeFailed qip7 bce tx res).refundSender = bce.refundSender := by
  unfold chargeFailed
  split_ifs <;> rfl

@[simp] theorem addValueTransfer_usedGas (bce : ByteCodeExecResult) (res : ResultExecute) :
    (addValueTransfer bce res).usedGas = bce.usedGas := by
  unfold addValueTransfer
  split_ifs <;> rfl

@[simp] theorem addValueTransfer_refundOutputs (bce : ByteCodeExecResult) (res : ResultExecute) :
    (addValueTransfer bce res).refundOutputs = bce.refundOutputs := by
  unfold addValueTransfer
  split_ifs <;> rfl

@[simp] theorem addValueTransfer_refundSender (bce : ByteCodeExecResult) (res : ResultExecute) :
    (addValueTransfer bce res).refundSender = bce.refundSender := by
  unfold addValueTransfer
  split_ifs <;> rfl

/-- The loop of `ConnectBlock` over the contract outputs of a transaction
before their execution. `sumGas` sums the stipends `gas * gasPrice`, compared
with the fee as a `dev::u256`, so that a negative fee wraps; `gasAllTxs`
sums the gas against the block's gas limit; `nonZeroVersion` records an
execution of a nonzero root VM, after which one of version 0 is refused. -/
def checkContractOutputsLoop (nTxFee : Int) (blockGasLimit minGasPrice : Nat) :
    Nat → Nat → Bool → List YuPostTransaction → Except String Bool
  | _, _, nonZeroVersion, [] => pure nonZeroVersion
  | sumGas, gasAllTxs, nonZeroVersion, qtx :: qtxs =>
    let sumGas := sumGas + qtx.gas * qtx.gasPrice
    let v := qtx.version
    let gasAllTxs := gasAllTxs + qtx.gas
    if sumGas > INT64_MAX then throw "bad-tx-gas-stipend-overflow"
    else if sumGas > (nTxFee % 2 ^ 256).toNat then throw "bad-txns-fee-notenough"
    else if v.format != 0 then throw "bad-tx-version-format"
    else if v.rootVM == 0 && nonZeroVersion then throw "bad-tx-mixed-zero-versions"
    else if !(v.rootVM == 0 || v.rootVM == 1) then throw "bad-tx-version-rootvm"
    else if v.vmVersion != 0 then throw "bad-tx-version-vmversion"
    else if v.flagOptions != 0 then throw "bad-tx-version-flags"
    else if qtx.gas < MINIMUM_GAS_LIMIT && v.rootVM != 0 then throw "bad-tx-too-little-gas"
    else if qtx.gas > UINT32_MAX then throw "bad-tx-too-much-gas"
    else if gasAllTxs > blockGasLimit then throw "bad-txns-gas-exceeds-blockgaslimit"
    else if v.rootVM != 0 && qtx.gasPrice % 2 ^ 64 < minGasPrice then throw "bad-tx-low-gas-price"
    else
      checkContractOutputsLoop nTxFee blockGasLimit minGasPrice sumGas gasAllTxs
        (nonZeroVersion || v.rootVM != 0) qtxs

def checkContractOutputs (nTxFee : Int) (blockGasLimit minGasPrice : Nat) (hasOpSpend : Bool)
    (txs : List YuPostTransaction) : Except String Unit := do
  let nonZeroVersion ← checkContractOutputsLoop nTxFee blockGasLimit minGasPrice 0 0 false txs
  -- a version 0 execution must have been added by a previous contract execution
  if !nonZeroVersion && !hasOpSpend then throw "bad-tx-improper-version-0" else pure ()

/-- What the gas of an execution costs at its price. -/
def stipend (tx : YuPostTransaction) : Nat := tx.gas * tx.gasPrice

/-- The refund an execution is owed, where it is owed one and it is not zero:
the unused gas at the gas price, in exact arithmetic. -/
def refundAmount (qip7 : Bool) (tx : YuPostTransaction) (res : ResultExecute) : Option Int :=
  if refundsGas qip7 res ∧ 0 < (tx.gas - res.gasUsed) * tx.gasPrice then
    some ((tx.gas - res.gasUsed) * tx.gasPrice : Nat)
  else none

def refundAmounts (qip7 : Bool) (txs : List YuPostTransaction) (results : List ResultExecute) :
    List Int :=
  (txs.zip results).filterMap fun pr => refundAmount qip7 pr.1 pr.2

/-- The range checks of `parseEthTXParams` on the gas price and limit it reads:
each within `INT64_MAX`, and so is their product. -/
def gasParamsInRange (gasPrice gasLimit : Nat) : Bool :=
  !(gasPrice > INT64_MAX || gasLimit > INT64_MAX) && !(gasPrice != 0 && gasLimit > INT64_MAX / gasPrice)

theorem stipend_le_of_gasParamsInRange {tx : YuPostTransaction}
    (h : gasParamsInRange tx.gasPrice tx.gas = true) :
    stipend tx ≤ INT64_MAX ∧ tx.gasPrice ≤ INT64_MAX ∧ tx.gas ≤ INT64_MAX := by
  simp only [gasParamsInRange, Bool.and_eq_true, Bool.not_eq_true', Bool.or_eq_false_iff,
    decide_eq_false_iff_not, Bool.and_eq_false_iff, bne_eq_false_iff_eq, not_lt] at h
  obtain ⟨⟨hprice, hgas⟩, hprod⟩ := h
  refine ⟨?_, hprice, hgas⟩
  by_cases hzero : tx.gasPrice = 0
  · simp [stipend, hzero]
  · have hle := hprod.resolve_left hzero
    exact (Nat.le_div_iff_mul_le (Nat.pos_of_ne_zero hzero)).mp hle

theorem toInt_toInt64_of_lt (x : UInt64) (h : x.toNat < 2 ^ 63) : x.toInt64.toInt = x.toNat := by
  have hbv : x.toInt64.toBitVec = x.toBitVec := rfl
  have hnat : x.toBitVec.toNat = x.toNat := rfl
  rw [Int64.toInt, hbv, BitVec.toInt_eq_toNat_cond, hnat, if_pos (by omega)]

theorem refundLeft_le (tx : YuPostTransaction) (res : ResultExecute) :
    (tx.gas - res.gasUsed) * tx.gasPrice ≤ stipend tx :=
  Nat.mul_le_mul_right _ (Nat.sub_le _ _)

section Refund

variable {tx : YuPostTransaction} {res : ResultExecute} (hused : res.gasUsed ≤ tx.gas)
  (hstipend : stipend tx ≤ INT64_MAX) (hprice : tx.gasPrice ≤ INT64_MAX) (hgas : tx.gas ≤ INT64_MAX)
include hused hstipend hprice hgas

theorem refund_toInt :
    ((UInt64.ofNat tx.gas - UInt64.ofNat res.gasUsed) * UInt64.ofNat tx.gasPrice).toInt64.toInt =
      ((tx.gas - res.gasUsed) * tx.gasPrice : Nat) := by
  have hleft := refundLeft_le tx res
  have hsize : INT64_MAX < UInt64.size := by decide
  unfold INT64_MAX at *
  have hg : (UInt64.ofNat tx.gas).toNat = tx.gas := UInt64.toNat_ofNat_of_lt' (by omega)
  have hu : (UInt64.ofNat res.gasUsed).toNat = res.gasUsed := UInt64.toNat_ofNat_of_lt' (by omega)
  have hp : (UInt64.ofNat tx.gasPrice).toNat = tx.gasPrice := UInt64.toNat_ofNat_of_lt' (by omega)
  have hsub : (UInt64.ofNat tx.gas - UInt64.ofNat res.gasUsed).toNat = tx.gas - res.gasUsed := by
    rw [UInt64.toNat_sub_of_le _ _ (by rw [UInt64.le_iff_toNat_le, hg, hu]; exact hused), hg, hu]
  have hmul : ((UInt64.ofNat tx.gas - UInt64.ofNat res.gasUsed) * UInt64.ofNat tx.gasPrice).toNat =
      (tx.gas - res.gasUsed) * tx.gasPrice := by
    rw [UInt64.toNat_mul, hsub, hp]
    exact Nat.mod_eq_of_lt (by omega)
  rw [toInt_toInt64_of_lt _ (by rw [hmul]; omega), hmul]

/-- The refund values a result carries. -/
def refundValues (bce : ByteCodeExecResult) : List Int := bce.refundOutputs.map (·.nValue.toInt)

theorem refundUnusedGas_spec (bce : ByteCodeExecResult) (hsender : 0 ≤ bce.refundSender.toInt)
    (hroom : bce.refundSender.toInt + stipend tx ≤ INT64_MAX) :
    ∃ bce', refundUnusedGas bce tx res = some bce' ∧
      bce'.usedGas = bce.usedGas + UInt64.ofNat res.gasUsed ∧
      refundValues bce' = refundValues bce ++
        (if 0 < (tx.gas - res.gasUsed) * tx.gasPrice then [(((tx.gas - res.gasUsed) * tx.gasPrice : Nat) : Int)]
          else []) ∧
      bce'.refundSender.toInt = bce.refundSender.toInt +
        (if 0 < (tx.gas - res.gasUsed) * tx.gasPrice then ((tx.gas - res.gasUsed) * tx.gasPrice : Nat)
          else 0) := by
  have hamount := refund_toInt hused hstipend hprice hgas
  have hleft := refundLeft_le tx res
  unfold refundUnusedGas
  rw [if_neg (by simp only [UINT64_MAX, INT64_MAX] at *; simp; omega)]
  dsimp only
  generalize ((UInt64.ofNat tx.gas - UInt64.ofNat res.gasUsed) * UInt64.ofNat tx.gasPrice).toInt64 =
    amount at hamount ⊢
  have hnonneg : ¬amount < 0 := by
    rw [Int64.lt_iff_toInt_lt, hamount, Int64.toInt_zero]
    exact Int.not_lt.mpr (Int.natCast_nonneg _)
  rw [if_neg hnonneg]
  by_cases hpos : 0 < (tx.gas - res.gasUsed) * tx.gasPrice
  · have hamount_pos : amount > 0 := by
      rw [gt_iff_lt, Int64.lt_iff_toInt_lt, hamount, Int64.toInt_zero]
      exact Int.natCast_pos.mpr hpos
    rw [if_pos hamount_pos]
    refine ⟨_, rfl, rfl, ?_, ?_⟩
    · simp only [refundValues, List.map_append, List.map_cons, List.map_nil, hamount, if_pos hpos]
    -- the running sum stays below `INT64_MAX`, so the 64-bit addition is exact
    · rw [Int64.toInt_add, hamount, if_pos hpos]
      unfold INT64_MAX at hroom
      exact Int.bmod_eq_of_le (by omega) (by omega)
  · have hamount_zero : ¬amount > 0 := by
      rw [gt_iff_lt, Int64.lt_iff_toInt_lt, hamount, Int64.toInt_zero]
      exact fun h => hpos (Int.natCast_pos.mp h)
    rw [if_neg hamount_zero]
    exact ⟨_, rfl, rfl, by simp [refundValues, hpos], by simp [hpos]⟩

theorem processResult_spec (qip7 : Bool) (bce : ByteCodeExecResult)
    (hsender : 0 ≤ bce.refundSender.toInt) (hroom : bce.refundSender.toInt + stipend tx ≤ INT64_MAX) :
    ∃ bce', processResult qip7 bce tx res = some bce' ∧
      bce'.usedGas = bce.usedGas + UInt64.ofNat res.gasUsed ∧
      refundValues bce' = refundValues bce ++ (refundAmount qip7 tx res).toList ∧
      bce'.refundSender.toInt = bce.refundSender.toInt + (refundAmount qip7 tx res).getD 0 := by
  by_cases hrefund : refundsGas qip7 res = true
  · -- charged and refunded in the second branch only
    obtain ⟨b, hb, hgasb, hvalues, hsenderb⟩ := refundUnusedGas_spec hused hstipend hprice hgas
      (chargeFailed qip7 bce tx res) (by simpa using hsender) (by simpa using hroom)
    have hamount : refundAmount qip7 tx res =
        if 0 < (tx.gas - res.gasUsed) * tx.gasPrice then
          some (((tx.gas - res.gasUsed) * tx.gasPrice : Nat) : Int)
        else none := by
      simp only [refundAmount, hrefund, true_and]
    refine ⟨addValueTransfer b res, by simp [processResult, hrefund, hb], ?_, ?_, ?_⟩
    · simp [hgasb, hrefund]
    · simp only [refundValues, addValueTransfer_refundOutputs, chargeFailed_refundOutputs]
        at hvalues ⊢
      rw [hvalues, hamount]
      split_ifs <;> rfl
    · rw [addValueTransfer_refundSender, hsenderb, chargeFailed_refundSender, hamount]
      split_ifs <;> rfl
  · -- charged in the first branch, and owed nothing
    refine ⟨addValueTransfer (chargeFailed qip7 bce tx res) res, by simp [processResult, hrefund],
      by simp [hrefund], by simp [refundValues, refundAmount, hrefund],
      by simp [refundAmount, hrefund]⟩

end Refund

theorem checkContractOutputsLoop_stipends (nTxFee : Int) (blockGasLimit minGasPrice : Nat) :
    ∀ (txs : List YuPostTransaction) (sumGas gasAllTxs : Nat) (nonZeroVersion r : Bool),
      checkContractOutputsLoop nTxFee blockGasLimit minGasPrice sumGas gasAllTxs nonZeroVersion txs =
        .ok r →
      sumGas ≤ INT64_MAX → sumGas ≤ (nTxFee % 2 ^ 256).toNat →
      sumGas + (txs.map stipend).sum ≤ INT64_MAX ∧
        sumGas + (txs.map stipend).sum ≤ (nTxFee % 2 ^ 256).toNat
  | [], sumGas, _, _, _, _, hmax, hfee => by simpa using ⟨hmax, hfee⟩
  | qtx :: qtxs, sumGas, gasAllTxs, nonZeroVersion, r, h, _, _ => by
    unfold checkContractOutputsLoop at h
    simp only [ite_throw_eq_ok] at h
    obtain ⟨hmax, hfee, -, -, -, -, -, -, -, -, -, hrest⟩ := h
    have ih := checkContractOutputsLoop_stipends nTxFee blockGasLimit minGasPrice qtxs _ _ _ r hrest
      (by omega) (by omega)
    simp only [List.map_cons, List.sum_cons, stipend] at ih ⊢
    omega

theorem stipends_le_of_checkContractOutputs {nTxFee : Int} {blockGasLimit minGasPrice : Nat}
    {hasOpSpend : Bool} {txs : List YuPostTransaction}
    (h : checkContractOutputs nTxFee blockGasLimit minGasPrice hasOpSpend txs = .ok ()) :
    (txs.map stipend).sum ≤ INT64_MAX ∧ (txs.map stipend).sum ≤ (nTxFee % 2 ^ 256).toNat := by
  obtain ⟨nonZeroVersion, hloop, -⟩ := Iff.mp bind_eq_ok h
  simpa using checkContractOutputsLoop_stipends nTxFee blockGasLimit minGasPrice txs 0 0 false
    nonZeroVersion hloop (Nat.zero_le _) (Nat.zero_le _)

theorem refundAmount_getD_bounds (qip7 : Bool) (tx : YuPostTransaction) (res : ResultExecute) :
    0 ≤ (refundAmount qip7 tx res).getD 0 ∧ (refundAmount qip7 tx res).getD 0 ≤ stipend tx := by
  have hleft := refundLeft_le tx res
  unfold refundAmount
  split_ifs
  · exact ⟨Int.natCast_nonneg _, Int.ofNat_le.mpr hleft⟩
  · exact ⟨le_rfl, Int.natCast_nonneg _⟩

/-- The run lemma of `processingResults`: over executions whose gas used is
within their gas and whose parameters passed `parseEthTXParams`, with room
for every stipend below `INT64_MAX`, the loop succeeds, charges each
execution's gas once, and appends exactly the refunds owed, which the
`refundSender` total follows. -/
theorem foldlM_processResult (qip7 : Bool) :
    ∀ (pairs : List (YuPostTransaction × ResultExecute)) (bce : ByteCodeExecResult),
      (∀ pr ∈ pairs, pr.2.gasUsed ≤ pr.1.gas ∧ gasParamsInRange pr.1.gasPrice pr.1.gas = true) →
      0 ≤ bce.refundSender.toInt →
      bce.refundSender.toInt + ((pairs.map fun pr => stipend pr.1).sum : Nat) ≤ INT64_MAX →
      ∃ bce', pairs.foldlM (fun bce (tx, res) => processResult qip7 bce tx res) bce = some bce' ∧
        bce'.usedGas = bce.usedGas + (pairs.map fun pr => UInt64.ofNat pr.2.gasUsed).sum ∧
        refundValues bce' =
          refundValues bce ++ pairs.filterMap (fun pr => refundAmount qip7 pr.1 pr.2) ∧
        bce'.refundSender.toInt =
          bce.refundSender.toInt + (pairs.filterMap fun pr => refundAmount qip7 pr.1 pr.2).sum
  | [], bce, _, _, _ => ⟨bce, rfl, by simp, by simp, by simp⟩
  | (tx, res) :: pairs, bce, hok, hsender, hroom => by
    obtain ⟨hused, hrange⟩ : res.gasUsed ≤ tx.gas ∧ gasParamsInRange tx.gasPrice tx.gas = true :=
      hok (tx, res) List.mem_cons_self
    obtain ⟨hstipend, hprice, hgas⟩ := stipend_le_of_gasParamsInRange hrange
    have hbounds := refundAmount_getD_bounds qip7 tx res
    simp only [List.map_cons, List.sum_cons, Nat.cast_add] at hroom
    obtain ⟨b, hb, hgasb, hvalues, hsenderb⟩ :=
      processResult_spec hused hstipend hprice hgas qip7 bce hsender (by omega)
    obtain ⟨b', hb', hgasb', hvalues', hsenderb'⟩ := foldlM_processResult qip7 pairs b
      (fun pr h => hok pr (List.mem_cons_of_mem _ h)) (by omega) (by omega)
    have hsum : ((refundAmount qip7 tx res).toList).sum = (refundAmount qip7 tx res).getD 0 := by
      cases refundAmount qip7 tx res <;> simp
    refine ⟨b', by simp [hb, hb'], ?_, ?_, ?_⟩
    · rw [hgasb', hgasb, List.map_cons, List.sum_cons, UInt64.add_assoc]
    · rw [hvalues', hvalues, filterMap_cons_eq_toList_append, List.append_assoc]
    · rw [hsenderb', hsenderb, filterMap_cons_eq_toList_append, List.sum_append, hsum, Int.add_assoc]

theorem sum_refundAmounts_le (qip7 : Bool) :
    ∀ pairs : List (YuPostTransaction × ResultExecute),
      (pairs.filterMap fun pr => refundAmount qip7 pr.1 pr.2).sum ≤
        ((pairs.map fun pr => stipend pr.1).sum : Nat)
  | [] => by simp
  | (tx, res) :: pairs => by
    have hbounds := refundAmount_getD_bounds qip7 tx res
    have ih := sum_refundAmounts_le qip7 pairs
    have hsum : ((refundAmount qip7 tx res).toList).sum = (refundAmount qip7 tx res).getD 0 := by
      cases refundAmount qip7 tx res <;> simp
    simp only [filterMap_cons_eq_toList_append, List.sum_append, List.map_cons, List.sum_cons,
      Nat.cast_add]
    rw [hsum]
    omega

/-- The refunds of one transaction. For a contract transaction whose outputs
`parseEthTXParams` accepted, whose gas `ConnectBlock` checked against its fee
(a fee `CheckTxInputs` found nonnegative), and whose executions used no more
gas than they were given, `processingResults` succeeds; the gas used is the
sum of the gas of all executions, each counted once; the refund outputs pay
exactly the unused gas at its price, with no wrap-around; `refundSender` is
their sum; and that sum is at most the fee. -/
theorem processingResults_within_fee (qip7 : Bool) (txs : List YuPostTransaction)
    (results : List ResultExecute) (nTxFee : Int) (blockGasLimit minGasPrice : Nat)
    (hasOpSpend : Bool) (hlength : txs.length = results.length)
    (hparsed : ∀ tx ∈ txs, gasParamsInRange tx.gasPrice tx.gas = true)
    (hchecked : checkContractOutputs nTxFee blockGasLimit minGasPrice hasOpSpend txs = .ok ())
    (hfee : 0 ≤ nTxFee) (hused : ∀ pr ∈ txs.zip results, pr.2.gasUsed ≤ pr.1.gas) :
    ∃ bce, processingResults qip7 txs results = some bce ∧
      bce.usedGas = (results.map fun res => UInt64.ofNat res.gasUsed).sum ∧
      refundValues bce = refundAmounts qip7 txs results ∧
      bce.refundSender.toInt = totalValue bce.refundOutputs ∧
      totalValue bce.refundOutputs ≤ nTxFee := by
  obtain ⟨hmax, hcover⟩ := stipends_le_of_checkContractOutputs hchecked
  have hstipends : ((txs.zip results).map fun pr => stipend pr.1) = txs.map stipend := by
    have h := congrArg (List.map stipend) (List.map_fst_zip (le_of_eq hlength))
    rwa [List.map_map] at h
  have hgasUsed : ((txs.zip results).map fun pr => UInt64.ofNat pr.2.gasUsed) =
      results.map fun res => UInt64.ofNat res.gasUsed := by
    have h := congrArg (List.map fun res : ResultExecute => UInt64.ofNat res.gasUsed)
      (List.map_snd_zip (ge_of_eq hlength))
    rwa [List.map_map] at h
  obtain ⟨bce, hbce, hgasb, hvalues, hsender⟩ := foldlM_processResult qip7 (txs.zip results) {}
    (fun pr h => ⟨hused pr h, hparsed pr.1 (List.of_mem_zip h).1⟩) le_rfl
    (by rw [hstipends, show ({} : ByteCodeExecResult).refundSender.toInt = 0 from rfl]; omega)
  have htotal : totalValue bce.refundOutputs = (refundAmounts qip7 txs results).sum := by
    have h := congrArg List.sum hvalues
    simpa [refundValues, totalValue, refundAmounts] using h
  have hbound := sum_refundAmounts_le qip7 (txs.zip results)
  rw [hstipends] at hbound
  refine ⟨bce, hbce, by simp [hgasb, hgasUsed], by simpa [refundValues, refundAmounts] using hvalues,
    by simpa [htotal, refundAmounts] using hsender, ?_⟩
  -- the fee, nonnegative, is at least its remainder modulo 2^256
  have hmod : ((nTxFee % 2 ^ 256).toNat : Int) ≤ nTxFee := by
    rw [Int.toNat_of_nonneg (Int.emod_nonneg _ (by decide))]
    omega
  have hcover' := Int.ofNat_le.mpr hcover
  rw [htotal]
  unfold refundAmounts
  omega

end YuPost.Contract
