import YuPost.Script.Interpreter
import YuPost.Contract.ByteCodeExec
import YuPost.State.ChangeLog

/-! `YuPostTxConverter` of `validation.cpp`: how `ConnectBlock`, the miner and
the mempool read the contract outputs of a transaction. `receiveStack`
evaluates an output script with `EvalScript` onto the converter's stack, takes
the rest of the script that OP_CREATE or OP_CALL left on top, and notes whether
the script has OP_SENDER; `parseEthTXParams` then pops the contract address of a
call, the code, the gas price, the gas limit and the VM version. The stack is a
field of the converter and is not cleared between outputs, so the three sender
fields of an output stay on it under the next output's items.

`dev::Address` of a byte vector is the Ethereum library's (outside this
repository): the parameter `toAddress`. The `YuPostTransaction`s that
`createEthTX` builds from the parameters, with the addresses of
`GetSenderAddress`, are not modelled: `extractionYuPostTransactions` gives the
parameters of each contract output. -/

namespace YuPost.Contract

open YuPost.Lib YuPost.Primitives YuPost.Script YuPost.State

/-- `GetContractScriptFlags`: OP_SENDER is evaluated from `QIP5Height` on. -/
def getContractScriptFlags (nHeight QIP5Height : Nat) : UInt32 :=
  if nHeight ≥ QIP5Height then SCRIPT_EXEC_BYTE_CODE ||| SCRIPT_OUTPUT_SENDER
  else SCRIPT_EXEC_BYTE_CODE

def hasOpCreate (script : CScript) : Bool := find script OP_CREATE == 1

def hasOpCall (script : CScript) : Bool := find script OP_CALL == 1

structure EthTransactionParams where
  version : VersionVM
  gasLimit : Nat
  gasPrice : Nat
  code : valtype
  receiveAddress : Address
deriving DecidableEq, Repr

/-- The fields `receiveStack` and `parseEthTXParams` share. The constructor
leaves `opcode` unset; `receiveStack` writes it before it is read. -/
structure YuPostTxConverter where
  stack : List valtype := []
  opcode : opcodetype := 0
  sender : Bool := false
deriving DecidableEq, Repr

/-- `correctedStackSize`: OP_SENDER adds three items under the contract's. -/
def correctedStackSize (sender : Bool) (size : Nat) : Nat := if sender then size + 3 else size

def receiveStack (flags : UInt32) (execOther : opcodetype → List valtype → Option (List valtype))
    (scriptPubKey : CScript) (c : YuPostTxConverter) : Bool × YuPostTxConverter :=
  match (evalScript flags execOther c.stack scriptPubKey).2 with
  | [] => (false, { c with stack := [], sender := false })
  | scriptRest :: stack =>
    let sender := hasOpSender scriptPubKey
    match scriptRest with
    -- `*scriptRest.begin()` of an empty script reads past it: a failure here
    | [] => (false, { c with stack, sender })
    | opcode :: _ =>
      if (opcode = OP_CREATE ∧ stack.length < correctedStackSize sender 4) ∨
          (opcode = OP_CALL ∧ stack.length < correctedStackSize sender 5) then
        (false, { stack := [], opcode, sender := false })
      else (true, { stack, opcode, sender })

/-- The address of a call, popped from the top; `dev::Address()`, the zero
address, otherwise. -/
def popReceiveAddress (toAddress : valtype → Address) (c : YuPostTxConverter) :
    Option (Address × List valtype) :=
  if c.opcode = OP_CALL then
    match c.stack with
    | vecAddr :: stack => some (toAddress vecAddr, stack)
    | [] => none
  else some (zeroAddress, c.stack)

/-- `parseEthTXParams`; the `scriptnum_error`s it catches are the errors of
`vchToUint64`. -/
def parseEthTXParams (toAddress : valtype → Address) (c : YuPostTxConverter) :
    Option (EthTransactionParams × YuPostTxConverter) := do
  let (receiveAddress, stack) ← popReceiveAddress toAddress c
  if stack.length < correctedStackSize c.sender 4 then none
  let code :: gasPriceVch :: gasLimitVch :: versionVch :: stack := stack | none
  if code.length < 1 then none
  let gasPrice ← (CScriptNum.vchToUint64 gasPriceVch).toOption
  let gasLimit ← (CScriptNum.vchToUint64 gasLimitVch).toOption
  if gasPrice > INT64_MAX ∨ gasLimit > INT64_MAX then none
  if gasPrice ≠ 0 ∧ gasLimit > INT64_MAX / gasPrice then none
  if versionVch.length > 4 then none
  let version ← (CScriptNum.vchToUint64 versionVch).toOption
  pure (⟨VersionVM.fromRaw (UInt32.ofNat version), gasLimit, gasPrice, code, receiveAddress⟩,
    { c with stack })

/-- The body of the loop of `extractionYuPostTransactions` for an output with
OP_CREATE or OP_CALL. -/
def convertOutput (flags : UInt32) (execOther : opcodetype → List valtype → Option (List valtype))
    (toAddress : valtype → Address) (scriptPubKey : CScript) (c : YuPostTxConverter) :
    Option (EthTransactionParams × YuPostTxConverter) :=
  let (received, c) := receiveStack flags execOther scriptPubKey c
  if received then parseEthTXParams toAddress c else none

def extractionLoop (flags : UInt32) (execOther : opcodetype → List valtype → Option (List valtype))
    (toAddress : valtype → Address) : List CTxOut → YuPostTxConverter → Option (List EthTransactionParams)
  | [], _ => some []
  | out :: vout, c =>
    if hasOpCreate out.scriptPubKey || hasOpCall out.scriptPubKey then
      match convertOutput flags execOther toAddress out.scriptPubKey c with
      | some (params, c) => (params :: ·) <$> extractionLoop flags execOther toAddress vout c
      | none => none
    else extractionLoop flags execOther toAddress vout c

/-- `extractionYuPostTransactions`, for the parameters of each contract output;
`none` where it returns false. -/
def extractionYuPostTransactions (flags : UInt32)
    (execOther : opcodetype → List valtype → Option (List valtype)) (toAddress : valtype → Address)
    (tx : CTransaction) : Option (List EthTransactionParams) :=
  extractionLoop flags execOther toAddress tx.vout {}

/-- `createcontract`: `CScript() << CScriptNum(version) << CScriptNum(gasLimit)
<< CScriptNum(gasPrice) << data << OP_CREATE`. -/
def contractCreateScript (version gasLimit gasPrice : Nat) (data : valtype) : CScript :=
  pushData (CScriptNum.serialize version) ++ pushData (CScriptNum.serialize gasLimit) ++
    pushData (CScriptNum.serialize gasPrice) ++ pushData data ++ [OP_CREATE]

/-- `sendtocontract`: the same with the contract address pushed before OP_CALL. -/
def contractCallScript (version gasLimit gasPrice : Nat) (data addr : valtype) : CScript :=
  pushData (CScriptNum.serialize version) ++ pushData (CScriptNum.serialize gasLimit) ++
    pushData (CScriptNum.serialize gasPrice) ++ pushData data ++ pushData addr ++ [OP_CALL]

/-- The sender fields put before either: `CScript() << CScriptNum(addressType)
<< senderAddress << senderSig << OP_SENDER`. -/
def senderFieldsScript (addressType : Int) (senderAddress senderSig : valtype) : CScript :=
  pushData (CScriptNum.serialize addressType) ++ pushData senderAddress ++ pushData senderSig ++
    [OP_SENDER]

section Parse

variable {toAddress : valtype → Address}

theorem toOption_eq_some {ε α : Type} {e : Except ε α} {a : α} : e.toOption = some a ↔ e = .ok a := by
  cases e <;> simp [Except.toOption]

theorem drop_of_popReceiveAddress {c : YuPostTxConverter} {receiveAddress : Address}
    {stack : List valtype} (h : popReceiveAddress toAddress c = some (receiveAddress, stack)) :
    c.stack.drop (if c.opcode = OP_CALL then 1 else 0) = stack := by
  unfold popReceiveAddress at h
  split_ifs at h with hcall
  · match hs : c.stack, h with
    | vecAddr :: rest, h =>
      cases h
      simp [hcall]
  · cases h
    simp [hcall]

theorem mul_le_of_gas_checks {gasPrice gasLimit : Nat}
    (hdiv : ¬(gasPrice ≠ 0 ∧ gasLimit > INT64_MAX / gasPrice)) : gasPrice * gasLimit ≤ INT64_MAX := by
  by_cases hzero : gasPrice = 0
  · simp [hzero]
  · have hle : gasLimit ≤ INT64_MAX / gasPrice := by
      simp only [ne_eq, hzero, not_false_eq_true, gt_iff_lt, true_and, Nat.not_lt] at hdiv
      exact hdiv
    rw [Nat.mul_comm]
    exact (Nat.le_div_iff_mul_le (Nat.pos_of_ne_zero hzero)).mp hle

/-- What an accepted stack holds: the code, then a gas price and a gas limit
that `vch_to_uint64` reads with their product within `INT64_MAX`, then a
version of at most four bytes. -/
theorem parseEthTXParams_eq_some {c : YuPostTxConverter} {params : EthTransactionParams}
    {c' : YuPostTxConverter} (h : parseEthTXParams toAddress c = some (params, c')) :
    ∃ code gasPriceVch gasLimitVch versionVch rest,
      c.stack.drop (if c.opcode = OP_CALL then 1 else 0) =
        code :: gasPriceVch :: gasLimitVch :: versionVch :: rest ∧
      CScriptNum.vchToUint64 gasPriceVch = .ok params.gasPrice ∧
      CScriptNum.vchToUint64 gasLimitVch = .ok params.gasLimit ∧
      params.gasPrice * params.gasLimit ≤ INT64_MAX ∧ versionVch.length ≤ 4 := by
  simp only [parseEthTXParams, Nat.lt_one_iff, List.length_eq_zero_iff, gt_iff_lt, ne_eq,
    Option.pure_def, Option.bind_eq_bind, Option.bind_none] at h
  obtain ⟨⟨receiveAddress, stack⟩, hpop, h⟩ := Option.bind_eq_some_iff.mp h
  obtain ⟨-, h⟩ := Option.ite_none_left_eq_some.mp h
  match stack, h with
  | code :: gasPriceVch :: gasLimitVch :: versionVch :: rest, h =>
    obtain ⟨-, h⟩ := Option.ite_none_left_eq_some.mp h
    obtain ⟨gasPrice, hgasPrice, h⟩ := Option.bind_eq_some_iff.mp h
    obtain ⟨gasLimit, hgasLimit, h⟩ := Option.bind_eq_some_iff.mp h
    obtain ⟨-, h⟩ := Option.ite_none_left_eq_some.mp h
    obtain ⟨hdiv, h⟩ := Option.ite_none_left_eq_some.mp h
    obtain ⟨hversion, h⟩ := Option.ite_none_left_eq_some.mp h
    obtain ⟨version, -, h⟩ := Option.bind_eq_some_iff.mp h
    cases h
    exact ⟨code, gasPriceVch, gasLimitVch, versionVch, rest, drop_of_popReceiveAddress hpop,
      Iff.mp toOption_eq_some hgasPrice, Iff.mp toOption_eq_some hgasLimit,
      mul_le_of_gas_checks (by simpa using hdiv), by omega⟩

theorem parseEthTXParams_of_reads {c : YuPostTxConverter} {receiveAddress : Address}
    {code gasPriceVch gasLimitVch versionVch : valtype} {rest : List valtype}
    {gasPrice gasLimit version : Nat}
    (hpop : popReceiveAddress toAddress c =
      some (receiveAddress, code :: gasPriceVch :: gasLimitVch :: versionVch :: rest))
    (hsize : correctedStackSize c.sender 4 ≤ rest.length + 4) (hcode : code ≠ [])
    (hgasPrice : CScriptNum.vchToUint64 gasPriceVch = .ok gasPrice)
    (hgasLimit : CScriptNum.vchToUint64 gasLimitVch = .ok gasLimit)
    (hmax : gasPrice ≤ INT64_MAX ∧ gasLimit ≤ INT64_MAX) (hstipend : gasPrice * gasLimit ≤ INT64_MAX)
    (hversionLen : versionVch.length ≤ 4) (hversion : CScriptNum.vchToUint64 versionVch = .ok version) :
    parseEthTXParams toAddress c =
      some (⟨VersionVM.fromRaw (UInt32.ofNat version), gasLimit, gasPrice, code, receiveAddress⟩,
        { c with stack := rest }) := by
  have hdiv : ¬(gasPrice ≠ 0 ∧ INT64_MAX / gasPrice < gasLimit) := fun ⟨hne, hgt⟩ =>
    absurd ((Nat.le_div_iff_mul_le (Nat.pos_of_ne_zero hne)).mpr (by rw [Nat.mul_comm]; exact hstipend))
      (Nat.not_le.mpr hgt)
  have hlen : ¬(rest.length + 1 + 1 + 1 + 1 < correctedStackSize c.sender 4) := by omega
  simp only [parseEthTXParams, hpop, Option.pure_def, Option.bind_eq_bind, Option.bind_some,
    List.length_cons, hlen, if_false, Option.bind_none]
  simp [hcode, hgasPrice, hgasLimit, hversion, Except.toOption, Nat.not_lt.mpr hmax.1,
    Nat.not_lt.mpr hmax.2, hdiv, Nat.not_lt.mpr hversionLen]

end Parse

section Receive

variable {flags : UInt32} {execOther : opcodetype → List valtype → Option (List valtype)}

theorem length_lt_length_pushData (b : valtype) : b.length < (pushData b).length := by
  unfold pushData
  split_ifs <;> simp

theorem one_le_length_pushData (b : valtype) : 1 ≤ (pushData b).length :=
  Nat.lt_of_le_of_lt (Nat.zero_le _) (length_lt_length_pushData b)

theorem length_le_length_pushes : ∀ items : List valtype,
    items.length ≤ ((items.map pushData).flatten).length
  | [] => le_rfl
  | b :: items => by
    have hb := one_le_length_pushData b
    have ih := length_le_length_pushes items
    simp only [List.map_cons, List.flatten_cons, List.length_append, List.length_cons]
    omega

theorem evalScriptLoop_pushes_contract {fuel nOpCount : Nat} {op : opcodetype} {items stack : List valtype}
    (hop : op = OP_CREATE ∨ op = OP_CALL) (hminimal : flags &&& SCRIPT_VERIFY_MINIMALDATA = 0)
    (hsize : ∀ b ∈ items, b.length ≤ MAX_SCRIPT_ELEMENT_SIZE)
    (hstack : stack.length + items.length ≤ MAX_STACK_SIZE) (hcount : nOpCount + 1 ≤ MAX_OPS_PER_SCRIPT) :
    evalScriptLoop flags execOther (fuel + items.length + 1) nOpCount
        ((items.map pushData).flatten ++ [op]) stack =
      (true, [op] :: (items.reverse ++ stack)) := by
  rw [Nat.add_right_comm, evalScriptLoop_pushes hminimal items stack hsize hstack,
    evalScriptLoop_contract hop hcount]

theorem evalScript_contract {op : opcodetype} {items stack : List valtype}
    (hop : op = OP_CREATE ∨ op = OP_CALL) (hminimal : flags &&& SCRIPT_VERIFY_MINIMALDATA = 0)
    (hsize : ∀ b ∈ items, b.length ≤ MAX_SCRIPT_ELEMENT_SIZE)
    (hstack : stack.length + items.length ≤ MAX_STACK_SIZE)
    (hscript : ((items.map pushData).flatten ++ [op]).length ≤ MAX_SCRIPT_SIZE) :
    evalScript flags execOther stack ((items.map pushData).flatten ++ [op]) =
      (true, [op] :: (items.reverse ++ stack)) := by
  have hlen := length_le_length_pushes items
  have hfuel : ((items.map pushData).flatten ++ [op]).length + 1 =
      ((items.map pushData).flatten.length + 1 - items.length) + items.length + 1 := by
    simp only [List.length_append, List.length_singleton]
    omega
  rw [evalScript, if_neg (Nat.not_lt.mpr hscript), hfuel,
    evalScriptLoop_pushes_contract hop hminimal hsize hstack (by decide)]

theorem evalScript_sender_contract {op : opcodetype} {pre items stack : List valtype}
    (hop : op = OP_CREATE ∨ op = OP_CALL) (hminimal : flags &&& SCRIPT_VERIFY_MINIMALDATA = 0)
    (hsender : flags &&& SCRIPT_OUTPUT_SENDER ≠ 0)
    (hsize : ∀ b ∈ pre ++ items, b.length ≤ MAX_SCRIPT_ELEMENT_SIZE)
    (hstack : stack.length + pre.length + items.length ≤ MAX_STACK_SIZE)
    (hscript : ((pre.map pushData).flatten ++ OP_SENDER :: ((items.map pushData).flatten ++ [op])).length ≤
      MAX_SCRIPT_SIZE) :
    evalScript flags execOther stack
        ((pre.map pushData).flatten ++ OP_SENDER :: ((items.map pushData).flatten ++ [op])) =
      (true, [op] :: (items.reverse ++ (pre.reverse ++ stack))) := by
  have hpre := length_le_length_pushes pre
  have hitems := length_le_length_pushes items
  have hfuel : ((pre.map pushData).flatten ++ OP_SENDER :: ((items.map pushData).flatten ++ [op])).length + 1 =
      ((((pre.map pushData).flatten.length - pre.length) +
        ((items.map pushData).flatten.length - items.length) + 1 + items.length + 1) + 1) +
        pre.length := by
    simp only [List.length_append, List.length_cons, List.length_nil]
    omega
  rw [evalScript, if_neg (Nat.not_lt.mpr hscript), hfuel,
    evalScriptLoop_pushes hminimal pre stack (fun b hb => hsize b (List.mem_append_left items hb))
      (by omega),
    evalScriptLoop_sender hsender (by decide) (by simp only [List.length_append, List.length_reverse]; omega),
    evalScriptLoop_pushes_contract hop hminimal (fun b hb => hsize b (List.mem_append_right pre hb))
      (by simp only [List.length_append, List.length_reverse]; omega) (by decide)]

theorem lt_two_pow_of_le_element_size {items : List valtype}
    (hsize : ∀ b ∈ items, b.length ≤ MAX_SCRIPT_ELEMENT_SIZE) : ∀ b ∈ items, b.length < 2 ^ 32 :=
  fun b hb => by
    have := hsize b hb
    unfold MAX_SCRIPT_ELEMENT_SIZE at this
    omega

theorem find_sender_contract {op : opcodetype} (hop : op = OP_CREATE ∨ op = OP_CALL)
    {items : List valtype} (hsize : ∀ b ∈ items, b.length ≤ MAX_SCRIPT_ELEMENT_SIZE) :
    find ((items.map pushData).flatten ++ [op]) OP_SENDER = 0 := by
  have hlt : OP_PUSHDATA4 < op ∧ op ≠ OP_SENDER := by rcases hop with rfl | rfl <;> decide
  rw [find_pushes (by decide) [op] items (lt_two_pow_of_le_element_size hsize),
    find_cons_of_pushdata4_lt hlt.1, if_neg hlt.2, find_nil]

theorem hasOpSender_contract {op : opcodetype} (hop : op = OP_CREATE ∨ op = OP_CALL)
    {items : List valtype} (hsize : ∀ b ∈ items, b.length ≤ MAX_SCRIPT_ELEMENT_SIZE) :
    hasOpSender ((items.map pushData).flatten ++ [op]) = false := by
  rw [hasOpSender, find_sender_contract hop hsize]
  rfl

theorem hasOpSender_sender_contract {op : opcodetype} (hop : op = OP_CREATE ∨ op = OP_CALL)
    {pre items : List valtype} (hpre : ∀ b ∈ pre, b.length ≤ MAX_SCRIPT_ELEMENT_SIZE)
    (hitems : ∀ b ∈ items, b.length ≤ MAX_SCRIPT_ELEMENT_SIZE) :
    hasOpSender ((pre.map pushData).flatten ++ OP_SENDER :: ((items.map pushData).flatten ++ [op])) =
      true := by
  rw [hasOpSender, find_pushes (by decide) _ pre (lt_two_pow_of_le_element_size hpre),
    find_cons_of_pushdata4_lt (by decide), if_pos rfl, find_sender_contract hop hitems]
  rfl

theorem receiveStack_of_evalScript {scriptPubKey : CScript} {c : YuPostTxConverter}
    {op : opcodetype} {rest : List UInt8} {stack : List valtype}
    (heval : (evalScript flags execOther c.stack scriptPubKey).2 = (op :: rest) :: stack)
    (hcreate : op = OP_CREATE → correctedStackSize (hasOpSender scriptPubKey) 4 ≤ stack.length)
    (hcall : op = OP_CALL → correctedStackSize (hasOpSender scriptPubKey) 5 ≤ stack.length) :
    receiveStack flags execOther scriptPubKey c =
      (true, { stack, opcode := op, sender := hasOpSender scriptPubKey }) := by
  unfold receiveStack
  rw [heval]
  dsimp only
  rw [if_neg]
  rintro (⟨hop, hlt⟩ | ⟨hop, hlt⟩)
  · exact absurd (hcreate hop) (Nat.not_le.mpr hlt)
  · exact absurd (hcall hop) (Nat.not_le.mpr hlt)

theorem convertOutput_contract {toAddress : valtype → Address} {c : YuPostTxConverter}
    {op : opcodetype} {items : List valtype} (hop : op = OP_CREATE ∨ op = OP_CALL)
    (hminimal : flags &&& SCRIPT_VERIFY_MINIMALDATA = 0)
    (hsize : ∀ b ∈ items, b.length ≤ MAX_SCRIPT_ELEMENT_SIZE)
    (hstack : c.stack.length + items.length ≤ MAX_STACK_SIZE)
    (hscript : ((items.map pushData).flatten ++ [op]).length ≤ MAX_SCRIPT_SIZE)
    (hcount : 5 ≤ items.length ∨ (op = OP_CREATE ∧ 4 ≤ items.length)) :
    convertOutput flags execOther toAddress ((items.map pushData).flatten ++ [op]) c =
      parseEthTXParams toAddress { stack := items.reverse ++ c.stack, opcode := op, sender := false } := by
  have heval : (evalScript flags execOther c.stack ((items.map pushData).flatten ++ [op])).2 =
      [op] :: (items.reverse ++ c.stack) := by
    rw [evalScript_contract hop hminimal hsize hstack hscript]
  have hsender := hasOpSender_contract hop hsize
  have hlen : (items.reverse ++ c.stack).length = items.length + c.stack.length := by simp
  rw [convertOutput, receiveStack_of_evalScript heval, hsender]
  · rfl
  · intro hcreate
    rw [hsender, correctedStackSize, if_neg Bool.false_ne_true, hlen]
    omega
  · intro hcall
    rw [hsender, correctedStackSize, if_neg Bool.false_ne_true, hlen]
    rcases hcount with h | ⟨rfl, -⟩
    · omega
    · exact absurd hcall (by decide)

theorem convertOutput_sender_contract {toAddress : valtype → Address} {c : YuPostTxConverter}
    {op : opcodetype} {pre items : List valtype} (hop : op = OP_CREATE ∨ op = OP_CALL)
    (hminimal : flags &&& SCRIPT_VERIFY_MINIMALDATA = 0)
    (hsender : flags &&& SCRIPT_OUTPUT_SENDER ≠ 0)
    (hpre : ∀ b ∈ pre, b.length ≤ MAX_SCRIPT_ELEMENT_SIZE)
    (hitems : ∀ b ∈ items, b.length ≤ MAX_SCRIPT_ELEMENT_SIZE)
    (hstack : c.stack.length + pre.length + items.length ≤ MAX_STACK_SIZE)
    (hscript : ((pre.map pushData).flatten ++ OP_SENDER :: ((items.map pushData).flatten ++ [op])).length ≤
      MAX_SCRIPT_SIZE)
    (hcount : 8 ≤ pre.length + items.length ∨ (op = OP_CREATE ∧ 7 ≤ pre.length + items.length)) :
    convertOutput flags execOther toAddress
        ((pre.map pushData).flatten ++ OP_SENDER :: ((items.map pushData).flatten ++ [op])) c =
      parseEthTXParams toAddress
        { stack := items.reverse ++ (pre.reverse ++ c.stack), opcode := op, sender := true } := by
  have hsize : ∀ b ∈ pre ++ items, b.length ≤ MAX_SCRIPT_ELEMENT_SIZE := by
    intro b hb
    rcases List.mem_append.mp hb with h | h
    · exact hpre b h
    · exact hitems b h
  have heval : (evalScript flags execOther c.stack
      ((pre.map pushData).flatten ++ OP_SENDER :: ((items.map pushData).flatten ++ [op]))).2 =
      [op] :: (items.reverse ++ (pre.reverse ++ c.stack)) := by
    rw [evalScript_sender_contract hop hminimal hsender hsize hstack hscript]
  have hflag := hasOpSender_sender_contract hop hpre hitems
  have hlen : (items.reverse ++ (pre.reverse ++ c.stack)).length =
      pre.length + items.length + c.stack.length := by
    simp only [List.length_append, List.length_reverse]
    omega
  rw [convertOutput, receiveStack_of_evalScript heval, hflag]
  · rfl
  · intro hcreate
    rw [hflag, correctedStackSize, if_pos rfl, hlen]
    omega
  · intro hcall
    rw [hflag, correctedStackSize, if_pos rfl, hlen]
    rcases hcount with h | ⟨rfl, -⟩
    · omega
    · exact absurd hcall (by decide)

end Receive

section Wallet

variable {toAddress : valtype → Address}

theorem contractCreateScript_eq (version gasLimit gasPrice : Nat) (data : valtype) :
    contractCreateScript version gasLimit gasPrice data =
      ([CScriptNum.serialize version, CScriptNum.serialize gasLimit, CScriptNum.serialize gasPrice,
        data].map pushData).flatten ++ [OP_CREATE] := by
  simp [contractCreateScript]

theorem contractCallScript_eq (version gasLimit gasPrice : Nat) (data addr : valtype) :
    contractCallScript version gasLimit gasPrice data addr =
      ([CScriptNum.serialize version, CScriptNum.serialize gasLimit, CScriptNum.serialize gasPrice,
        data, addr].map pushData).flatten ++ [OP_CALL] := by
  simp [contractCallScript]

theorem senderFieldsScript_append (addressType : Int) (senderAddress senderSig : valtype)
    (contract : CScript) :
    senderFieldsScript addressType senderAddress senderSig ++ contract =
      ([CScriptNum.serialize addressType, senderAddress, senderSig].map pushData).flatten ++
        OP_SENDER :: contract := by
  simp [senderFieldsScript]

theorem getContractScriptFlags_minimal (nHeight QIP5Height : Nat) :
    getContractScriptFlags nHeight QIP5Height &&& SCRIPT_VERIFY_MINIMALDATA = 0 := by
  unfold getContractScriptFlags
  split_ifs <;> decide

theorem getContractScriptFlags_sender {nHeight QIP5Height : Nat} (h : QIP5Height ≤ nHeight) :
    getContractScriptFlags nHeight QIP5Height &&& SCRIPT_OUTPUT_SENDER ≠ 0 := by
  rw [getContractScriptFlags, if_pos h]
  decide

theorem parseEthTXParams_wallet {c : YuPostTxConverter} {receiveAddress : Address}
    {version gasLimit gasPrice : Nat} {data : valtype} (under : List valtype)
    (hpop : popReceiveAddress toAddress c = some (receiveAddress, data :: CScriptNum.serialize gasPrice ::
      CScriptNum.serialize gasLimit :: CScriptNum.serialize version :: under))
    (hsize : correctedStackSize c.sender 4 ≤ under.length + 4) (hdata : data ≠ [])
    (hversion : version < 2 ^ 31) (hgasLimit : gasLimit ≤ INT64_MAX) (hgasPrice : gasPrice ≤ INT64_MAX)
    (hstipend : gasLimit * gasPrice ≤ INT64_MAX) :
    (parseEthTXParams toAddress c).map Prod.fst =
      some ⟨VersionVM.fromRaw (UInt32.ofNat version), gasLimit, gasPrice, data, receiveAddress⟩ := by
  have hmax : INT64_MAX < 2 ^ 63 := by decide
  rw [parseEthTXParams_of_reads hpop hsize hdata (vchToUint64_serialize (by omega))
    (vchToUint64_serialize (by omega)) ⟨hgasPrice, hgasLimit⟩ (by rw [Nat.mul_comm]; exact hstipend)
    (length_serialize_le_four hversion) (vchToUint64_serialize (by omega))]
  rfl

theorem length_serialize_le_element_size (n : Int) :
    (CScriptNum.serialize n).length ≤ MAX_SCRIPT_ELEMENT_SIZE :=
  (length_serialize_le n).trans (by decide)

section Forms

variable {flags : UInt32} {execOther : opcodetype → List valtype → Option (List valtype)}
  {c : YuPostTxConverter} {version gasLimit gasPrice : Nat} {data : valtype}

theorem convertOutput_contractCreateScript (hminimal : flags &&& SCRIPT_VERIFY_MINIMALDATA = 0)
    (hstack : c.stack.length + 4 ≤ MAX_STACK_SIZE) (hversion : version < 2 ^ 31)
    (hgasLimit : gasLimit ≤ INT64_MAX) (hgasPrice : gasPrice ≤ INT64_MAX)
    (hstipend : gasLimit * gasPrice ≤ INT64_MAX) (hdata : data ≠ [])
    (hdataSize : data.length ≤ MAX_SCRIPT_ELEMENT_SIZE)
    (hscript : (contractCreateScript version gasLimit gasPrice data).length ≤ MAX_SCRIPT_SIZE) :
    (convertOutput flags execOther toAddress (contractCreateScript version gasLimit gasPrice data) c).map
        Prod.fst =
      some ⟨VersionVM.fromRaw (UInt32.ofNat version), gasLimit, gasPrice, data, zeroAddress⟩ := by
  rw [contractCreateScript_eq] at hscript ⊢
  rw [convertOutput_contract (Or.inl rfl) hminimal
    (by simp [length_serialize_le_element_size, hdataSize]) hstack hscript (Or.inr ⟨rfl, le_rfl⟩)]
  exact parseEthTXParams_wallet c.stack
    (by rw [popReceiveAddress, if_neg (show ¬OP_CREATE = OP_CALL by decide)]; rfl)
    (by simp [correctedStackSize]) hdata hversion hgasLimit hgasPrice hstipend

theorem convertOutput_contractCallScript {addr : valtype}
    (htoAddress : toAddress addr = addr) (haddr : addr.length ≤ MAX_SCRIPT_ELEMENT_SIZE)
    (hminimal : flags &&& SCRIPT_VERIFY_MINIMALDATA = 0)
    (hstack : c.stack.length + 5 ≤ MAX_STACK_SIZE) (hversion : version < 2 ^ 31)
    (hgasLimit : gasLimit ≤ INT64_MAX) (hgasPrice : gasPrice ≤ INT64_MAX)
    (hstipend : gasLimit * gasPrice ≤ INT64_MAX) (hdata : data ≠ [])
    (hdataSize : data.length ≤ MAX_SCRIPT_ELEMENT_SIZE)
    (hscript : (contractCallScript version gasLimit gasPrice data addr).length ≤ MAX_SCRIPT_SIZE) :
    (convertOutput flags execOther toAddress (contractCallScript version gasLimit gasPrice data addr)
        c).map Prod.fst =
      some ⟨VersionVM.fromRaw (UInt32.ofNat version), gasLimit, gasPrice, data, addr⟩ := by
  rw [contractCallScript_eq] at hscript ⊢
  rw [convertOutput_contract (Or.inr rfl) hminimal
    (by simp [length_serialize_le_element_size, hdataSize, haddr]) hstack hscript (Or.inl le_rfl)]
  refine parseEthTXParams_wallet c.stack ?_ (by simp [correctedStackSize]) hdata hversion hgasLimit
    hgasPrice hstipend
  rw [popReceiveAddress, if_pos rfl]
  simp [htoAddress]

theorem convertOutput_sender_contractCreateScript {addressType : Int} {senderAddress senderSig : valtype}
    (hfields : senderAddress.length ≤ MAX_SCRIPT_ELEMENT_SIZE ∧ senderSig.length ≤ MAX_SCRIPT_ELEMENT_SIZE)
    (hminimal : flags &&& SCRIPT_VERIFY_MINIMALDATA = 0) (hsender : flags &&& SCRIPT_OUTPUT_SENDER ≠ 0)
    (hstack : c.stack.length + 7 ≤ MAX_STACK_SIZE) (hversion : version < 2 ^ 31)
    (hgasLimit : gasLimit ≤ INT64_MAX) (hgasPrice : gasPrice ≤ INT64_MAX)
    (hstipend : gasLimit * gasPrice ≤ INT64_MAX) (hdata : data ≠ [])
    (hdataSize : data.length ≤ MAX_SCRIPT_ELEMENT_SIZE)
    (hscript : (senderFieldsScript addressType senderAddress senderSig ++
      contractCreateScript version gasLimit gasPrice data).length ≤ MAX_SCRIPT_SIZE) :
    (convertOutput flags execOther toAddress (senderFieldsScript addressType senderAddress senderSig ++
        contractCreateScript version gasLimit gasPrice data) c).map Prod.fst =
      some ⟨VersionVM.fromRaw (UInt32.ofNat version), gasLimit, gasPrice, data, zeroAddress⟩ := by
  rw [contractCreateScript_eq, senderFieldsScript_append] at hscript ⊢
  rw [convertOutput_sender_contract (Or.inl rfl) hminimal hsender
    (by simp [length_serialize_le_element_size, hfields.1, hfields.2])
    (by simp [length_serialize_le_element_size, hdataSize]) (by simp; omega) hscript
    (Or.inr ⟨rfl, le_rfl⟩)]
  exact parseEthTXParams_wallet ([CScriptNum.serialize addressType, senderAddress, senderSig].reverse ++ c.stack)
    (by rw [popReceiveAddress, if_neg (show ¬OP_CREATE = OP_CALL by decide)]; rfl)
    (by simp [correctedStackSize]) hdata hversion hgasLimit hgasPrice hstipend

theorem convertOutput_sender_contractCallScript {addr : valtype} {addressType : Int}
    {senderAddress senderSig : valtype} (htoAddress : toAddress addr = addr)
    (haddr : addr.length ≤ MAX_SCRIPT_ELEMENT_SIZE)
    (hfields : senderAddress.length ≤ MAX_SCRIPT_ELEMENT_SIZE ∧ senderSig.length ≤ MAX_SCRIPT_ELEMENT_SIZE)
    (hminimal : flags &&& SCRIPT_VERIFY_MINIMALDATA = 0) (hsender : flags &&& SCRIPT_OUTPUT_SENDER ≠ 0)
    (hstack : c.stack.length + 8 ≤ MAX_STACK_SIZE) (hversion : version < 2 ^ 31)
    (hgasLimit : gasLimit ≤ INT64_MAX) (hgasPrice : gasPrice ≤ INT64_MAX)
    (hstipend : gasLimit * gasPrice ≤ INT64_MAX) (hdata : data ≠ [])
    (hdataSize : data.length ≤ MAX_SCRIPT_ELEMENT_SIZE)
    (hscript : (senderFieldsScript addressType senderAddress senderSig ++
      contractCallScript version gasLimit gasPrice data addr).length ≤ MAX_SCRIPT_SIZE) :
    (convertOutput flags execOther toAddress (senderFieldsScript addressType senderAddress senderSig ++
        contractCallScript version gasLimit gasPrice data addr) c).map Prod.fst =
      some ⟨VersionVM.fromRaw (UInt32.ofNat version), gasLimit, gasPrice, data, addr⟩ := by
  rw [contractCallScript_eq, senderFieldsScript_append] at hscript ⊢
  rw [convertOutput_sender_contract (Or.inr rfl) hminimal hsender
    (by simp [length_serialize_le_element_size, hfields.1, hfields.2])
    (by simp [length_serialize_le_element_size, hdataSize, haddr]) (by simp; omega) hscript
    (Or.inl le_rfl)]
  refine parseEthTXParams_wallet ([CScriptNum.serialize addressType, senderAddress, senderSig].reverse ++
    c.stack) ?_ (by simp [correctedStackSize]) hdata hversion hgasLimit hgasPrice hstipend
  rw [popReceiveAddress, if_pos rfl]
  simp [htoAddress]

end Forms

end Wallet

/-- Every contract output the wallet writes, for a creation or a call and with
or without the sender fields (the latter from `QIP5Height` on), is read by
`receiveStack` and `parseEthTXParams` as the version, gas limit, gas price,
code and address written, on any converter whose stack has room for the items
of that form (four for a creation, five for a call, three more behind the
sender fields; the stack keeps the sender fields of earlier outputs), as long
as each pushed item and the script of that form are within the interpreter's
size limits. Conversely a stack is accepted only with a gas price and gas limit
whose product is within `INT64_MAX` and a version item of at most four bytes. -/
theorem contractOutput_decodes :
    (∀ (nHeight QIP5Height : Nat) (execOther : opcodetype → List valtype → Option (List valtype))
        (toAddress : valtype → Address) (c : YuPostTxConverter) (version gasLimit gasPrice : Nat)
        (data addr : valtype) (addressType : Int) (senderAddress senderSig : valtype),
      (∀ v : valtype, v.length = 20 → toAddress v = v) →
      version < 2 ^ 31 → gasLimit ≤ INT64_MAX → gasPrice ≤ INT64_MAX →
      gasLimit * gasPrice ≤ INT64_MAX → data ≠ [] → data.length ≤ MAX_SCRIPT_ELEMENT_SIZE →
      (c.stack.length + 4 ≤ MAX_STACK_SIZE →
        (contractCreateScript version gasLimit gasPrice data).length ≤ MAX_SCRIPT_SIZE →
        (convertOutput (getContractScriptFlags nHeight QIP5Height) execOther toAddress
            (contractCreateScript version gasLimit gasPrice data) c).map Prod.fst =
          some ⟨VersionVM.fromRaw (UInt32.ofNat version), gasLimit, gasPrice, data, zeroAddress⟩) ∧
      (addr.length = 20 → c.stack.length + 5 ≤ MAX_STACK_SIZE →
        (contractCallScript version gasLimit gasPrice data addr).length ≤ MAX_SCRIPT_SIZE →
        (convertOutput (getContractScriptFlags nHeight QIP5Height) execOther toAddress
            (contractCallScript version gasLimit gasPrice data addr) c).map Prod.fst =
          some ⟨VersionVM.fromRaw (UInt32.ofNat version), gasLimit, gasPrice, data, addr⟩) ∧
      (QIP5Height ≤ nHeight → senderAddress.length ≤ MAX_SCRIPT_ELEMENT_SIZE →
        senderSig.length ≤ MAX_SCRIPT_ELEMENT_SIZE →
        (c.stack.length + 7 ≤ MAX_STACK_SIZE →
          (senderFieldsScript addressType senderAddress senderSig ++
            contractCreateScript version gasLimit gasPrice data).length ≤ MAX_SCRIPT_SIZE →
          (convertOutput (getContractScriptFlags nHeight QIP5Height) execOther toAddress
              (senderFieldsScript addressType senderAddress senderSig ++
                contractCreateScript version gasLimit gasPrice data) c).map Prod.fst =
            some ⟨VersionVM.fromRaw (UInt32.ofNat version), gasLimit, gasPrice, data, zeroAddress⟩) ∧
        (addr.length = 20 → c.stack.length + 8 ≤ MAX_STACK_SIZE →
          (senderFieldsScript addressType senderAddress senderSig ++
            contractCallScript version gasLimit gasPrice data addr).length ≤ MAX_SCRIPT_SIZE →
          (convertOutput (getContractScriptFlags nHeight QIP5Height) execOther toAddress
              (senderFieldsScript addressType senderAddress senderSig ++
                contractCallScript version gasLimit gasPrice data addr) c).map Prod.fst =
            some ⟨VersionVM.fromRaw (UInt32.ofNat version), gasLimit, gasPrice, data, addr⟩))) ∧
    (∀ (toAddress : valtype → Address) (c : YuPostTxConverter) (params : EthTransactionParams)
        (c' : YuPostTxConverter),
      parseEthTXParams toAddress c = some (params, c') →
      ∃ code gasPriceVch gasLimitVch versionVch rest,
        c.stack.drop (if c.opcode = OP_CALL then 1 else 0) =
          code :: gasPriceVch :: gasLimitVch :: versionVch :: rest ∧
        CScriptNum.vchToUint64 gasPriceVch = .ok params.gasPrice ∧
        CScriptNum.vchToUint64 gasLimitVch = .ok params.gasLimit ∧
        params.gasPrice * params.gasLimit ≤ INT64_MAX ∧ versionVch.length ≤ 4) := by
  refine ⟨fun nHeight QIP5Height execOther toAddress c version gasLimit gasPrice data addr addressType
    senderAddress senderSig htoAddress hversion hgasLimit hgasPrice hstipend hdata hdataSize => ?_,
    fun toAddress c params c' h => parseEthTXParams_eq_some h⟩
  have hminimal := getContractScriptFlags_minimal nHeight QIP5Height
  have haddrSize : addr.length = 20 → addr.length ≤ MAX_SCRIPT_ELEMENT_SIZE := by
    intro haddr
    rw [haddr]
    decide
  refine ⟨fun hstack hscript => ?_, fun haddr hstack hscript => ?_,
    fun hheight hsenderAddress hsenderSig => ⟨fun hstack hscript => ?_, fun haddr hstack hscript => ?_⟩⟩
  · exact convertOutput_contractCreateScript hminimal hstack hversion hgasLimit hgasPrice hstipend hdata
      hdataSize hscript
  · exact convertOutput_contractCallScript (htoAddress addr haddr) (haddrSize haddr) hminimal hstack
      hversion hgasLimit hgasPrice hstipend hdata hdataSize hscript
  · exact convertOutput_sender_contractCreateScript ⟨hsenderAddress, hsenderSig⟩ hminimal
      (getContractScriptFlags_sender hheight) hstack hversion hgasLimit hgasPrice hstipend hdata
      hdataSize hscript
  · exact convertOutput_sender_contractCallScript (htoAddress addr haddr) (haddrSize haddr)
      ⟨hsenderAddress, hsenderSig⟩ hminimal (getContractScriptFlags_sender hheight) hstack hversion
      hgasLimit hgasPrice hstipend hdata hdataSize hscript

/-- A call behind the sender fields of a key, on a fresh converter. -/
theorem contractOutput_decodes_on_sender_call :
    (convertOutput (getContractScriptFlags 0 0) (fun _ _ => none) id
        (senderFieldsScript 1 (List.replicate 20 7) [] ++
          contractCallScript 4 100000 40 [0x60] (List.replicate 20 1)) {}).map Prod.fst =
      some ⟨VersionVM.fromRaw (UInt32.ofNat 4), 100000, 40, [0x60], List.replicate 20 1⟩ :=
  ((contractOutput_decodes.1 0 0 (fun _ _ => none) id {} 4 100000 40 [0x60] (List.replicate 20 1) 1
    (List.replicate 20 7) [] (fun _ _ => rfl) (by decide) (by decide) (by decide) (by decide)
    (by decide) (by decide)).2.2 le_rfl (by decide) (by decide)).2 (by decide) (by decide) (by decide)

theorem length_lt_length_contractCreateScript (version gasLimit gasPrice : Nat) (data : valtype) :
    data.length < (contractCreateScript version gasLimit gasPrice data).length := by
  have := length_lt_length_pushData data
  simp only [contractCreateScript, List.length_append, List.length_singleton]
  omega

/-- A script longer than `MAX_SCRIPT_SIZE`, on a converter with an empty
stack: `EvalScript` refuses it before it reads anything, and `receiveStack`
fails on the empty stack. -/
theorem convertOutput_of_oversized {flags : UInt32}
    {execOther : opcodetype → List valtype → Option (List valtype)} {toAddress : valtype → Address}
    {script : CScript} (h : script.length > MAX_SCRIPT_SIZE) {c : YuPostTxConverter} (hc : c.stack = []) :
    convertOutput flags execOther toAddress script c = none := by
  simp only [convertOutput, receiveStack, evalScript, if_pos h, hc]
  rfl

/-- Data longer than a script may be: `EvalScript` refuses the script before it
reads anything, the stack stays empty and `receiveStack` fails. -/
theorem contractCreateScript_oversized_data_rejected :
    convertOutput (getContractScriptFlags 0 0) (fun _ _ => none) id
      (contractCreateScript 4 100000 40 (List.replicate MAX_SCRIPT_SIZE 1)) {} = none := by
  have hlen : (contractCreateScript 4 100000 40 (List.replicate MAX_SCRIPT_SIZE 1)).length >
      MAX_SCRIPT_SIZE := by
    have hdata := length_lt_length_contractCreateScript 4 100000 40 (List.replicate MAX_SCRIPT_SIZE 1)
    rwa [List.length_replicate] at hdata
  -- through the general lemma: the kernel never builds the oversized list
  exact convertOutput_of_oversized hlen rfl

end YuPost.Contract
