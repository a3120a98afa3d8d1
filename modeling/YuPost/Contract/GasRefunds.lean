import YuPost.Contract.TxConverter
import YuPost.Validation.ConnectBlock

/-! The gas refunds of a block. In the transaction loop of `ConnectBlock`, a
transaction with OP_CREATE or OP_CALL outputs and no OP_SPEND input is
converted into executions, whose gas is checked against the transaction's fee
(`GetValueIn` less `GetValueOut`); the EVM runs them, and the refund outputs of
`processingResults` are added to `gasRefunds`, while the loop adds the fee of
every transaction to `nFees`.

The conversion (`extractionYuPostTransactions` with `CheckMinGasPrice`) and the
EVM (`performByteCode`) are parameters. The block's gas-used check after the
execution rejects blocks only and is left out. -/

namespace YuPost.Primitives

open YuPost.Script YuPost.Contract

/-- `CTransaction::HasCreateOrCall`. -/
def CTransaction.hasCreateOrCall (tx : CTransaction) : Bool :=
  tx.vout.any fun v => hasOpCreate v.scriptPubKey || hasOpCall v.scriptPubKey

/-- `CScript::HasOpSpend`: the script is OP_SPEND alone. -/
def scriptHasOpSpend (script : CScript) : Bool := List.length script == 1 && List.head? script == some OP_SPEND

/-- `CTransaction::HasOpSpend`. -/
def CTransaction.hasOpSpend (tx : CTransaction) : Bool := tx.vin.any fun i => scriptHasOpSpend i.scriptSig

end YuPost.Primitives

namespace YuPost.Contract

open YuPost.Lib YuPost.Primitives YuPost.Script YuPost.Consensus YuPost.Validation

section Exec

variable (qip7 : Bool) (blockGasLimit minGasPrice : Nat)
  (convert : CTransaction → CoinsView → Option (List YuPostTransaction))
  (performByteCode : List YuPostTransaction → Option (List ResultExecute))

/-- The contract branch of the loop body of `ConnectBlock`: the refund outputs
a transaction adds. -/
def execContract (tx : CTransaction) (view : CoinsView) : Except String (List CTxOut) :=
  if tx.hasCreateOrCall && !tx.hasOpSpend then do
    let some txs := convert tx view | throw "bad-tx-bad-contract-format"
    let some nTxValueOut := tx.getValueOut | throw "GetValueOut: value out of range"
    let nTxFee := getValueIn view tx - nTxValueOut
    checkContractOutputs nTxFee blockGasLimit minGasPrice tx.hasOpSpend txs
    let some results := performByteCode txs | throw "bad-tx-unknown-error"
    let some bcer := processingResults qip7 txs results | throw "bad-vm-exec-processing"
    pure bcer.refundOutputs
  else pure []

/-- What `parseEthTXParams` establishes of every execution the conversion yields. -/
def ConvertsInRange : Prop :=
  ∀ tx view txs, convert tx view = some txs → ∀ qtx ∈ txs, gasParamsInRange qtx.gasPrice qtx.gas = true

/-- What is assumed of the EVM: one result per execution, each using no more
gas than it was given. -/
def UsesGivenGas : Prop :=
  ∀ txs results, performByteCode txs = some results →
    txs.length = results.length ∧ ∀ pr ∈ txs.zip results, pr.2.gasUsed ≤ pr.1.gas

theorem execContract_le (hconv : ConvertsInRange convert) (hevm : UsesGivenGas performByteCode)
    {tx : CTransaction} {view : CoinsView} {outs : List CTxOut}
    (h : execContract qip7 blockGasLimit minGasPrice convert performByteCode tx view = .ok outs) :
    outs = [] ∨ tx.hasCreateOrCall = true ∧ ∃ nTxValueOut, tx.getValueOut = some nTxValueOut ∧
      (0 ≤ getValueIn view tx - nTxValueOut → totalValue outs ≤ getValueIn view tx - nTxValueOut) := by
  unfold execContract at h
  split_ifs at h with hcontract
  · right
    refine ⟨(Bool.and_eq_true_iff.mp hcontract).1, ?_⟩
    cases hconvert : convert tx view with
    | none => simp [hconvert] at h
    | some txs =>
      cases hout : tx.getValueOut with
      | none => simp [hconvert, hout] at h
      | some nTxValueOut =>
        refine ⟨nTxValueOut, rfl, fun hfee => ?_⟩
        simp only [hconvert, hout, bind_eq_ok] at h
        obtain ⟨⟨⟩, hchecked, h⟩ := h
        cases hperform : performByteCode txs with
        | none => simp [hperform] at h
        | some results =>
          obtain ⟨hlength, hused⟩ := hevm txs results hperform
          obtain ⟨bce, hbce, -, -, -, hle⟩ := processingResults_within_fee qip7 txs results _ blockGasLimit
            minGasPrice tx.hasOpSpend hlength (hconv tx view txs hconvert) hchecked hfee hused
          simp only [hperform, hbce] at h
          cases h
          exact hle
  · left
    cases h
    rfl

end Exec

theorem sumInputValues_eq {p : Params} {view : CoinsView} {nSpendHeight : Int} :
    ∀ {acc : Int} {vin : List CTxIn} {v : Int}, sumInputValues p view nSpendHeight acc vin = .ok v →
      v = acc + (vin.map fun txin => accessValue view txin.prevout).sum := by
  intro acc vin
  induction vin generalizing acc with
  | nil =>
    intro v h
    cases h
    simp
  | cons txin vin ih =>
    intro v h
    cases hcoin : view txin.prevout with
    | none => simp [sumInputValues, hcoin] at h
    | some coin =>
      simp only [sumInputValues, hcoin] at h
      -- an immature coin and a value out of range throw; otherwise the loop goes on
      split_ifs at h with hmature hrange
      all_goals try exact absurd h throw_bind_ne_ok
      have hv := ih h
      have hvalue : accessValue view txin.prevout = coin.out.nValue.toInt := by simp [accessValue, hcoin]
      rw [List.map_cons, List.sum_cons, hvalue]
      omega

theorem checkTxInputs_fee {p : Params} {tx : CTransaction} {view : CoinsView} {nSpendHeight txfee : Int}
    (h : checkTxInputs p tx view nSpendHeight = .ok txfee) :
    0 ≤ txfee ∧ (tx.isCoinBase = false → tx.isCoinStake = false →
      ∃ nTxValueOut, tx.getValueOut = some nTxValueOut ∧ txfee = getValueIn view tx - nTxValueOut) := by
  simp only [checkTxInputs] at h
  have hhave : haveInputs view tx = true := by
    by_contra hne
    rw [if_pos (by simpa using hne)] at h
    exact throw_bind_ne_ok h
  rw [if_neg (by simp [hhave])] at h
  obtain ⟨nValueIn, hsum, h⟩ := bind_eq_ok.mp h
  by_cases hstake : tx.isCoinStake = true
  · -- a coinstake pays no fee
    rw [if_pos hstake] at h
    cases h
    exact ⟨le_refl 0, fun _ h => absurd hstake (by simp [h])⟩
  · rw [if_neg hstake] at h
    cases hout : tx.getValueOut with
    | none => simp [hout, throw, throwThe, MonadExceptOf.throw] at h
    | some nTxValueOut =>
      simp only [hout] at h
      split_ifs at h with hbelow hrange
      all_goals try exact absurd h throw_bind_ne_ok
      cases h
      refine ⟨by omega, fun hcb _ => ⟨nTxValueOut, rfl, ?_⟩⟩
      rw [sumInputValues_eq hsum, getValueIn, if_neg (by simp [hcb])]
      omega

section Connect

variable (p : Params) (txid : CTransaction → uint256)
  (checkTx : CTransaction → CoinsView → Except String Unit)
  (execC : CTransaction → CoinsView → Except String (List CTxOut)) (nHeight : Int)

theorem connectTx_spec {s s' : ConnectState} {tx : CTransaction}
    (h : connectTx p txid checkTx execC nHeight s tx = .ok s') :
    ∃ txfee outs, (tx.isCoinBase = false → checkTxInputs p tx s.view nHeight = .ok txfee) ∧
      (tx.isCoinBase = true → txfee = 0) ∧ execC tx s.view = .ok outs ∧
      s'.nFees = s.nFees + txfee ∧ s'.gasRefunds = s.gasRefunds + totalValue outs := by
  cases hcb : tx.isCoinBase with
  | true =>
    simp only [connectTx, hcb, Bool.not_true, Bool.false_eq_true, if_false, pure_bind] at h
    obtain ⟨⟨⟩, -, h⟩ := bind_eq_ok.mp h
    cases hout : tx.getValueOut with
    | none => simp [hout, throw, throwThe, MonadExceptOf.throw] at h
    | some nTxValueOut =>
      simp only [hout] at h
      obtain ⟨outs, houts, h⟩ := bind_eq_ok.mp h
      cases h
      exact ⟨0, outs, fun h => absurd h (by simp), fun _ => rfl, houts, by simp, rfl⟩
  | false =>
    simp only [connectTx, hcb, Bool.not_false, if_true, pure_bind] at h
    obtain ⟨txfee, htxfee, h⟩ := bind_eq_ok.mp h
    -- an accumulated fee out of range throws
    have hrange : MoneyRange (s.nFees + txfee) = true := by
      by_contra hne
      rw [if_pos (by simpa using hne)] at h
      exact throw_bind_ne_ok h
    rw [if_neg (by simp [hrange])] at h
    obtain ⟨⟨⟩, -, h⟩ := bind_eq_ok.mp h
    cases hout : tx.getValueOut with
    | none => simp [hout, throw, throwThe, MonadExceptOf.throw] at h
    | some nTxValueOut =>
      simp only [hout] at h
      obtain ⟨outs, houts, h⟩ := bind_eq_ok.mp h
      cases h
      exact ⟨txfee, outs, fun _ => htxfee, fun h => absurd h (by simp), houts, rfl, rfl⟩

end Connect

section Refunds

variable (p : Params) (txid : CTransaction → uint256)
  (checkTx : CTransaction → CoinsView → Except String Unit) (nHeight : Int)
  (qip7 : Bool) (blockGasLimit minGasPrice : Nat)
  (convert : CTransaction → CoinsView → Option (List YuPostTransaction))
  (performByteCode : List YuPostTransaction → Option (List ResultExecute))

/-- `CheckBlock` keeps contract outputs out of the coinbase and the coinstake. -/
def ContractsOutsideRewards (vtx : List CTransaction) : Prop :=
  ∀ tx ∈ vtx, tx.hasCreateOrCall = true → tx.isCoinBase = false ∧ tx.isCoinStake = false

theorem connectTx_refunds_le (hconv : ConvertsInRange convert) (hevm : UsesGivenGas performByteCode)
    {s s' : ConnectState} {tx : CTransaction}
    (hshape : tx.hasCreateOrCall = true → tx.isCoinBase = false ∧ tx.isCoinStake = false)
    (h : connectTx p txid checkTx (execContract qip7 blockGasLimit minGasPrice convert performByteCode)
      nHeight s tx = .ok s') :
    s'.gasRefunds - s'.nFees ≤ s.gasRefunds - s.nFees := by
  obtain ⟨txfee, outs, hfee, hzero, houts, hnFees, hrefunds⟩ := connectTx_spec p txid checkTx _ nHeight h
  rw [hnFees, hrefunds]
  rcases execContract_le qip7 blockGasLimit minGasPrice convert performByteCode hconv hevm houts with
    hnil | ⟨hcontract, nTxValueOut, hout, hle⟩
  · -- no refund, and a fee that is never negative
    rw [hnil, totalValue_nil]
    cases hcb : tx.isCoinBase with
    | false =>
      have hnonneg := (checkTxInputs_fee (hfee hcb)).1
      omega
    | true =>
      rw [hzero hcb]
      omega
  · -- a contract transaction pays a fee, the one its gas was checked against
    obtain ⟨hcb, hcs⟩ := hshape hcontract
    obtain ⟨hnonneg, hsplit⟩ := checkTxInputs_fee (hfee hcb)
    obtain ⟨nTxValueOut', hout', htxfee⟩ := hsplit hcb hcs
    rw [hout, Option.some.injEq] at hout'
    subst hout'
    have hbound := hle (htxfee ▸ hnonneg)
    omega

theorem foldlM_connectTx_refunds_le (hconv : ConvertsInRange convert) (hevm : UsesGivenGas performByteCode) :
    ∀ {vtx : List CTransaction} {s s' : ConnectState}, ContractsOutsideRewards vtx →
      vtx.foldlM (connectTx p txid checkTx (execContract qip7 blockGasLimit minGasPrice convert performByteCode)
        nHeight) s = .ok s' →
      s'.gasRefunds - s'.nFees ≤ s.gasRefunds - s.nFees := by
  intro vtx
  induction vtx with
  | nil =>
    intro s s' _ h
    cases h
    exact le_refl _
  | cons tx vtx ih =>
    intro s s' hshape h
    rw [List.foldlM_cons] at h
    obtain ⟨s1, h1, h⟩ := bind_eq_ok.mp h
    have hstep := connectTx_refunds_le p txid checkTx nHeight qip7 blockGasLimit minGasPrice convert
      performByteCode hconv hevm (hshape tx List.mem_cons_self) h1
    have hrest := ih (fun tx' htx' => hshape tx' (List.mem_cons_of_mem tx htx')) h
    omega

end Refunds

end YuPost.Contract
