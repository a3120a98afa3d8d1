import YuPost.Script.ScriptNum
import YuPost.Contract.ByteCodeExec

/-! `Solver` of `script/standard.cpp`, which names the kind of an output script
and collects its solutions, and `ExtractSenderData`, which reads the sender's
public key script and signature script out of an OP_SENDER output.

After three shortcuts (pay-to-script-hash, witness programs, `OP_RETURN` data)
`Solver` compares the script with each template of a `std::multimap`, in the
order of `txnouttype`. A template is a list of single-byte opcodes above
`OP_PUSHDATA4`, so `GetOp` on it reads one byte with no data; the comparison
reads the script an operation at a time against it (`matchLoop`), one slot of
the template at a time (`matchSlot`). A slot either lets the comparison go
on, with the solutions it pushes, or ends it: `break` tries the next template
(`mismatch`), `return TX_NONSTANDARD` ends `Solver` (`nonstandard`). -/

namespace YuPost.Script

open YuPost.Lib YuPost.Primitives YuPost.Contract

inductive txnouttype
  | TX_NONSTANDARD
  | TX_PUBKEY
  | TX_PUBKEYHASH
  | TX_SCRIPTHASH
  | TX_MULTISIG
  | TX_NULL_DATA
  | TX_WITNESS_V0_SCRIPTHASH
  | TX_WITNESS_V0_KEYHASH
  | TX_WITNESS_UNKNOWN
  | TX_CREATE_SENDER
  | TX_CALL_SENDER
  | TX_CREATE
  | TX_CALL
deriving DecidableEq, Repr

def OP_INVALIDOPCODE : opcodetype := 0xff

def MAX_BASE_SCRIPT_SIZE : Nat := 10000

def MAX_BLOCK_GAS_LIMIT_DGP : Nat := 1000000000

def DEFAULT_BLOCK_GAS_LIMIT_DGP : Nat := 40000000

def STANDARD_MINIMUM_GAS_LIMIT : Nat := 10000

def STANDARD_MINIMUM_GAS_PRICE : Nat := 1

def WITNESS_V0_KEYHASH_SIZE : Nat := 20

def WITNESS_V0_SCRIPTHASH_SIZE : Nat := 32

/-- The two values of `addresstype` the sender templates read. -/
def addresstype.PUBKEYHASH : Nat := 1

def addresstype.NONSTANDARD : Nat := 5

/-- `CScript::DecodeOP_N`. -/
def decodeOP_N (opcode : opcodetype) : Nat :=
  if opcode = OP_0 then 0 else opcode.toNat - (OP_1.toNat - 1)

/-- `GetScriptForDestination` of a `PKHash`, the only destination the sender
templates build: pay to the key hash. -/
def getScriptForDestination (keyID : valtype) : CScript :=
  [OP_DUP, OP_HASH160] ++ pushData keyID ++ [OP_EQUALVERIFY, OP_CHECKSIG]

/-- What a byte of a template asks of the operation read against it: one of
the matching opcodes (`OP_PUBKEY` and the contract fields), or an opcode that
must be read exactly. -/
inductive TemplateOp
  | PUBKEY
  | PUBKEYHASH
  | SMALLINTEGER
  | PUBKEYS
  | VERSION
  | GAS_LIMIT
  | GAS_PRICE
  | DATA
  | ADDRESS_TYPE
  | ADDRESS
  | SCRIPT_SIG
  | exact (opcode : opcodetype)
deriving DecidableEq, Repr

def TemplateOp.ofOpcode (opcode : opcodetype) : TemplateOp :=
  if opcode = OP_PUBKEY then .PUBKEY
  else if opcode = OP_PUBKEYHASH then .PUBKEYHASH
  else if opcode = OP_SMALLINTEGER then .SMALLINTEGER
  else if opcode = OP_PUBKEYS then .PUBKEYS
  else if opcode = OP_VERSION then .VERSION
  else if opcode = OP_GAS_LIMIT then .GAS_LIMIT
  else if opcode = OP_GAS_PRICE then .GAS_PRICE
  else if opcode = OP_DATA then .DATA
  else if opcode = OP_ADDRESS_TYPE then .ADDRESS_TYPE
  else if opcode = OP_ADDRESS then .ADDRESS
  else if opcode = OP_SCRIPT_SIG then .SCRIPT_SIG
  else .exact opcode

def senderTemplate : List opcodetype := [OP_ADDRESS_TYPE, OP_ADDRESS, OP_SCRIPT_SIG, OP_SENDER]

def createTemplate : List opcodetype := [OP_VERSION, OP_GAS_LIMIT, OP_GAS_PRICE, OP_DATA, OP_CREATE]

def callTemplate : List opcodetype :=
  [OP_VERSION, OP_GAS_LIMIT, OP_GAS_PRICE, OP_DATA, OP_PUBKEYHASH, OP_CALL]

/-- `mTemplates`, in the order the `std::multimap` is scanned. -/
def mTemplates : List (txnouttype × List TemplateOp) :=
  [(.TX_PUBKEY, [OP_PUBKEY, OP_CHECKSIG]),
   (.TX_PUBKEYHASH, [OP_DUP, OP_HASH160, OP_PUBKEYHASH, OP_EQUALVERIFY, OP_CHECKSIG]),
   (.TX_MULTISIG, [OP_SMALLINTEGER, OP_PUBKEYS, OP_SMALLINTEGER, OP_CHECKMULTISIG]),
   (.TX_CREATE_SENDER, senderTemplate ++ createTemplate),
   (.TX_CALL_SENDER, senderTemplate ++ callTemplate),
   (.TX_CREATE, createTemplate),
   (.TX_CALL, callTemplate)].map fun (type, template) => (type, template.map TemplateOp.ofOpcode)

/-- What the comparison with one template carries from slot to slot besides
the solutions: `addressType`, and the `rootVM` of `version`, which starts at
the invalid 20. -/
structure MatchState where
  addressType : Nat := 0
  rootVM : Nat := 20
deriving DecidableEq, Repr

/-- The end of one slot: go on with a state and the solutions pushed, or
`break`, or `return TX_NONSTANDARD`. -/
inductive SlotResult
  | next (st : MatchState) (solutions : List valtype)
  | mismatch
  | nonstandard
deriving DecidableEq, Repr

/-- The end of the comparison with one template, with the solutions pushed
from where it started. -/
inductive MatchOutcome
  | matched (vSolutions : List valtype)
  | mismatch
  | nonstandard (vSolutions : List valtype)
deriving DecidableEq, Repr

def MatchOutcome.prepend (solutions : List valtype) : MatchOutcome → MatchOutcome
  | .matched vSolutions => .matched (solutions ++ vSolutions)
  | .mismatch => .mismatch
  | .nonstandard vSolutions => .nonstandard (solutions ++ vSolutions)

/-- An opcode of a template read exactly: a template opcode carries no data. -/
def exactSlot (opcode2 opcode1 : opcodetype) (vch1 : valtype) (st : MatchState) : SlotResult :=
  if opcode1 ≠ opcode2 ∨ vch1 ≠ [] then .mismatch else .next st []

/-- The body of the comparison loop once the operation `opcode1` with data
`vch1` is read from the script and `opcode2` from the template. -/
def matchSlot (contractConsensus allowEmptySenderSig : Bool) (opcode2 : TemplateOp)
    (opcode1 : opcodetype) (vch1 : valtype) (st : MatchState) : SlotResult :=
  match opcode2 with
  | .PUBKEY => if vch1.length < 33 ∨ vch1.length > 65 then .mismatch else .next st [vch1]
  | .PUBKEYHASH => if vch1.length ≠ 20 then .mismatch else .next st [vch1]
  | .SMALLINTEGER =>
    if opcode1 = OP_0 ∨ (OP_1 ≤ opcode1 ∧ opcode1 ≤ OP_16) then
      .next st [[UInt8.ofNat (decodeOP_N opcode1)]]
    else .mismatch
  | .VERSION =>
    -- a version that is not pushed is not looked at
    if opcode1 ≤ OP_PUSHDATA4 then
      if vch1.isEmpty ∨ vch1.length > 4 ∨ vch1.getLastD 0 &&& 0x80 ≠ 0 then .nonstandard
      else
        match CScriptNum.vchToUint64 vch1 with
        | .error _ => .nonstandard
        | .ok raw =>
          let version := VersionVM.fromRaw (UInt32.ofNat raw)
          if version.toRaw = VersionVM.getEVMDefault.toRaw ∨
              version.toRaw = VersionVM.getNoExec.toRaw then
            .next { st with rootVM := version.rootVM } []
          else .nonstandard
    else .next st []
  | .GAS_LIMIT =>
    match CScriptNum.vchToUint64 vch1 with
    | .error _ => .nonstandard
    | .ok val =>
      if contractConsensus then
        if st.rootVM ≠ 0 ∧ val < 1 then .nonstandard
        else if val > MAX_BLOCK_GAS_LIMIT_DGP then .nonstandard
        else .next st []
      else
        if st.rootVM ≠ 0 ∧ val < STANDARD_MINIMUM_GAS_LIMIT then .nonstandard
        else if val > DEFAULT_BLOCK_GAS_LIMIT_DGP / 2 then .nonstandard
        else .next st []
  | .GAS_PRICE =>
    match CScriptNum.vchToUint64 vch1 with
    | .error _ => .nonstandard
    | .ok val =>
      if contractConsensus then
        if st.rootVM ≠ 0 ∧ val < 1 then .nonstandard else .next st []
      else
        if st.rootVM ≠ 0 ∧ val < STANDARD_MINIMUM_GAS_PRICE then .nonstandard else .next st []
  | .DATA => if opcode1 ≤ OP_PUSHDATA4 ∧ vch1.isEmpty then .mismatch else .next st []
  | .ADDRESS_TYPE =>
    match CScriptNum.vchToUint64 vch1 with
    | .error _ => .mismatch
    | .ok val =>
      if val < addresstype.PUBKEYHASH ∨ val > addresstype.NONSTANDARD then .mismatch
      else .next { st with addressType := val } []
  | .ADDRESS =>
    if st.addressType = addresstype.PUBKEYHASH ∧ vch1.length = 20 then
      .next st [serScript (getScriptForDestination vch1)]
    else .mismatch
  | .SCRIPT_SIG =>
    if opcode1 ≤ OP_PUSHDATA4 then
      if !allowEmptySenderSig ∧ vch1.isEmpty then .mismatch
      else if vch1.length > MAX_BASE_SCRIPT_SIZE then .nonstandard
      else .next st [vch1]
    else .next st []
  -- `OP_PUBKEYS` is matched before this chain; a second one right after it is
  -- read exactly, as every other opcode of a template is
  | .PUBKEYS => exactSlot OP_PUBKEYS opcode1 vch1 st
  | .exact opcode2 => exactSlot opcode2 opcode1 vch1 st

/-- The inner loop of the `OP_PUBKEYS` slot: data of a public key's size is
taken as a key and the next operation read, until data of another size is
read. A read that fails leaves `OP_INVALIDOPCODE` and no data; the position
after it is taken as the end of the script, as nothing reads it: the only slot
after `OP_PUBKEYS` is `OP_SMALLINTEGER`, which rejects `OP_INVALIDOPCODE`. -/
def readKeys : Nat → opcodetype → valtype → List UInt8 →
    List valtype × opcodetype × valtype × List UInt8
  | 0, opcode1, vch1, rest => ([], opcode1, vch1, rest)
  | fuel + 1, opcode1, vch1, rest =>
    if 33 ≤ vch1.length ∧ vch1.length ≤ 65 then
      match getScriptOp rest with
      | none => ([vch1], OP_INVALIDOPCODE, [], [])
      | some (opcode, vch, n) =>
        let (keys, next) := readKeys fuel opcode vch (rest.drop n)
        (vch1 :: keys, next)
    else ([], opcode1, vch1, rest)

/-- The comparison loop of `Solver` with one template: it matches when script
and template end together, and stops where either cannot be read. -/
def matchLoop (contractConsensus allowEmptySenderSig : Bool) :
    List TemplateOp → List UInt8 → MatchState → MatchOutcome
  | [], [], _ => .matched []
  | [], _ :: _, _ => .mismatch
  | .PUBKEYS :: template, script1, st =>
    match getScriptOp script1 with
    | none => .mismatch
    | some (opcode1, vch1, n) =>
      let (keys, opcode1, vch1, rest1) := readKeys script1.length opcode1 vch1 (script1.drop n)
      -- the slot after the keys is compared with the operation that ended them
      match template with
      | [] => .mismatch
      | opcode2 :: template =>
        match matchSlot contractConsensus allowEmptySenderSig opcode2 opcode1 vch1 st with
        | .next st solutions =>
          (matchLoop contractConsensus allowEmptySenderSig template rest1 st).prepend
            (keys ++ solutions)
        | .mismatch => .mismatch
        | .nonstandard => .nonstandard keys
  | opcode2 :: template, script1, st =>
    match getScriptOp script1 with
    | none => .mismatch
    | some (opcode1, vch1, n) =>
      match matchSlot contractConsensus allowEmptySenderSig opcode2 opcode1 vch1 st with
      | .next st solutions =>
        (matchLoop contractConsensus allowEmptySenderSig template (script1.drop n) st).prepend
          solutions
      | .mismatch => .mismatch
      | .nonstandard => .nonstandard []

/-- The extra checks of a `TX_MULTISIG` match: `m` and `n` between 1 and the
number of keys, which is `n`. -/
def multisigCountsOk (vSolutions : List valtype) : Bool :=
  let m := (vSolutions.headD []).headD 0
  let n := (vSolutions.getLastD []).headD 0
  !(m < 1 || n < 1 || m > n || vSolutions.length - 2 != n.toNat)

def scanTemplates (contractConsensus allowEmptySenderSig : Bool) (script1 : CScript) :
    List (txnouttype × List TemplateOp) → txnouttype × List valtype
  | [] => (.TX_NONSTANDARD, [])
  | (type, template) :: templates =>
    match matchLoop contractConsensus allowEmptySenderSig template script1 {} with
    | .matched vSolutions =>
      if type = .TX_MULTISIG ∧ !multisigCountsOk vSolutions then (.TX_NONSTANDARD, vSolutions)
      else (type, vSolutions)
    | .mismatch => scanTemplates contractConsensus allowEmptySenderSig script1 templates
    | .nonstandard vSolutions => (.TX_NONSTANDARD, vSolutions)

def isPayToScriptHash (script : CScript) : Bool :=
  script.length == 23 && script[0]? == some OP_HASH160 && script[1]? == some 0x14 &&
    script[22]? == some OP_EQUAL

/-- `CScript::IsWitnessProgram`: the version and the program. -/
def isWitnessProgram (script : CScript) : Option (Nat × valtype) :=
  if script.length < 4 ∨ script.length > 42 then none
  else
    match script with
    | version :: size :: program =>
      if version ≠ OP_0 ∧ (version < OP_1 ∨ version > OP_16) then none
      else if size.toNat + 2 = script.length then some (decodeOP_N version, program)
      else none
    | _ => none

/-- The loop of `CScript::IsPushOnly`; its fuel, one more than the bytes, is
never what stops it. -/
def isPushOnlyLoop : Nat → List UInt8 → Bool
  | 0, _ => false
  | fuel + 1, rest =>
    if rest.isEmpty then true
    else
      match getScriptOp rest with
      | none => false
      | some (opcode, _, n) => if opcode > OP_16 then false else isPushOnlyLoop fuel (rest.drop n)

def isPushOnly (script : CScript) : Bool :=
  isPushOnlyLoop (script.length + 1) script

/-- `Solver`: the kind of `scriptPubKey` and its solutions. -/
def solver (scriptPubKey : CScript) (contractConsensus allowEmptySenderSig : Bool) :
    txnouttype × List valtype :=
  if isPayToScriptHash scriptPubKey then (.TX_SCRIPTHASH, [(scriptPubKey.drop 2).take 20])
  else
    match isWitnessProgram scriptPubKey with
    | some (witnessversion, witnessprogram) =>
      if witnessversion = 0 ∧ witnessprogram.length = WITNESS_V0_KEYHASH_SIZE then
        (.TX_WITNESS_V0_KEYHASH, [witnessprogram])
      else if witnessversion = 0 ∧ witnessprogram.length = WITNESS_V0_SCRIPTHASH_SIZE then
        (.TX_WITNESS_V0_SCRIPTHASH, [witnessprogram])
      else if witnessversion ≠ 0 then
        (.TX_WITNESS_UNKNOWN, [[UInt8.ofNat witnessversion], witnessprogram])
      else (.TX_NONSTANDARD, [])
    | none =>
      if scriptPubKey.head? = some OP_RETURN ∧ isPushOnly (scriptPubKey.drop 1) then
        (.TX_NULL_DATA, [])
      else scanTemplates contractConsensus allowEmptySenderSig scriptPubKey mTemplates

/-- `ExtractSenderData` with both results asked for: the sender's public key
script and signature script, each read back from the stream a solution holds.
A script that is not solved in either mode, has fewer than two solutions, or
whose solutions do not read as scripts (the exception caught) gives `none`. -/
def extractSenderData (outputPubKey : CScript) : Option (CScript × CScript) :=
  if hasOpSender outputPubKey then
    let solved := solver outputPubKey true false
    let solved := if solved.1 = .TX_NONSTANDARD then solver outputPubKey false false else solved
    if solved.1 = .TX_NONSTANDARD then none
    else
      match solved.2 with
      | pubKey :: sig :: _ => do
        let (senderPubKey, _) ← readScript pubKey
        let (senderSig, _) ← readScript sig
        pure (senderPubKey, senderSig)
      | _ => none
  else none

/-- The output script `createcontract` and `sendtocontract` build for a sender
`keyID`: the sender fields, with `scriptSig` in the signature slot, in front
of the contract script. -/
def senderOutputScript (keyID scriptSig : valtype) (contract : CScript) : CScript :=
  pushData (CScriptNum.serialize addresstype.PUBKEYHASH) ++ pushData keyID ++ pushData scriptSig ++
    [OP_SENDER] ++ contract


/-- An operation as `GetOp` reads it: only a push carries data. -/
def IsReadOp (opcode : opcodetype) (vch : valtype) : Prop :=
  OP_PUSHDATA4 < opcode → vch = []

theorem isReadOp_of_getScriptOp {s : List UInt8} {opcode : opcodetype} {vch : valtype} {n : Nat}
    (h : getScriptOp s = some (opcode, vch, n)) : IsReadOp opcode vch := by
  intro hop
  match s, h with
  | b :: rest, h =>
    simp only [getScriptOp] at h
    split_ifs at h with hpush
    · split at h
      · cases h
      · split_ifs at h
        cases h
        rw [UInt8.lt_iff_toNat_lt] at hop
        rw [UInt8.le_iff_toNat_le] at hpush
        omega
    · cases h
      rfl

theorem find_nil (op : opcodetype) : find [] op = 0 := rfl

theorem find_step {s : List UInt8} {opcode : opcodetype} {vch : valtype} {n : Nat}
    (h : getScriptOp s = some (opcode, vch, n)) (op : opcodetype) :
    find s op = (if opcode = op then 1 else 0) + find (s.drop n) op := by
  have hn := getScriptOp_consumed h
  unfold find
  have hfuel : findLoop op s.length (s.drop n) = findLoop op ((s.drop n).length + 1) (s.drop n) :=
    findLoop_fuel (by simp; omega) (by omega)
  rw [findLoop, h]
  dsimp only
  rw [hfuel]

theorem find_of_getScriptOp_none {s : List UInt8} (h : getScriptOp s = none) (op : opcodetype) :
    find s op = 0 := by
  unfold find
  rw [findLoop, h]

/-- The slots that push a solution, one each. -/
def TemplateOp.pushesSolution : TemplateOp → Bool
  | .PUBKEY | .PUBKEYHASH | .SMALLINTEGER | .ADDRESS | .SCRIPT_SIG => true
  | _ => false

/-- Whether a slot can let through the operation `op`, which is not a push. -/
def TemplateOp.admits (op : opcodetype) : TemplateOp → Bool
  | .VERSION | .GAS_LIMIT | .GAS_PRICE | .DATA | .SCRIPT_SIG => true
  | .PUBKEYS => op == OP_PUBKEYS
  | .exact opcode => op == opcode
  | _ => false

section Slot

variable {contractConsensus allowEmptySenderSig : Bool} {opcode2 : TemplateOp} {opcode1 : opcodetype}
  {vch1 : valtype} {st st' : MatchState} {solutions : List valtype}

theorem matchSlot_consensus (h : matchSlot false allowEmptySenderSig opcode2 opcode1 vch1 st ≠ .nonstandard) :
    matchSlot true allowEmptySenderSig opcode2 opcode1 vch1 st =
      matchSlot false allowEmptySenderSig opcode2 opcode1 vch1 st := by
  cases opcode2 with
  | GAS_LIMIT =>
    cases hv : CScriptNum.vchToUint64 vch1 with
    | error _ => simp [matchSlot, hv] at h
    | ok val =>
      simp only [matchSlot, hv, ↓reduceIte, Bool.false_eq_true] at h ⊢
      have hmin : STANDARD_MINIMUM_GAS_LIMIT = 10000 := rfl
      have hdefault : DEFAULT_BLOCK_GAS_LIMIT_DGP = 40000000 := rfl
      have hmax : MAX_BLOCK_GAS_LIMIT_DGP = 1000000000 := rfl
      -- the mempool let the value through: it is within the consensus bounds too
      have hlow : st.rootVM = 0 ∨ STANDARD_MINIMUM_GAS_LIMIT ≤ val := by
        by_contra hbad
        exact h (if_pos (by omega))
      have hhigh : val ≤ DEFAULT_BLOCK_GAS_LIMIT_DGP / 2 := by
        by_contra hbad
        exact h (by rw [if_neg (by omega), if_pos (by omega)])
      rw [if_neg (by omega), if_neg (by omega), if_neg (by omega), if_neg (by omega)]
  | GAS_PRICE =>
    cases hv : CScriptNum.vchToUint64 vch1 with
    | error _ => simp [matchSlot, hv] at h
    | ok val =>
      simp only [matchSlot, hv, ↓reduceIte, Bool.false_eq_true]
      rfl
  | _ => rfl

theorem matchSlot_addressType (h₁ : opcode2 ≠ .ADDRESS) (h₂ : opcode2 ≠ .ADDRESS_TYPE) (a : Nat) :
    matchSlot contractConsensus allowEmptySenderSig opcode2 opcode1 vch1 { st with addressType := a } =
      match matchSlot contractConsensus allowEmptySenderSig opcode2 opcode1 vch1 st with
      | .next st' solutions => .next { st' with addressType := a } solutions
      | .mismatch => .mismatch
      | .nonstandard => .nonstandard := by
  cases opcode2 with
  | ADDRESS => exact absurd rfl h₁
  | ADDRESS_TYPE => exact absurd rfl h₂
  | VERSION =>
    simp only [matchSlot]
    split_ifs
    · rfl
    · split <;> (try split_ifs) <;> rfl
    · rfl
  | GAS_LIMIT | GAS_PRICE =>
    simp only [matchSlot]
    split <;> (try split_ifs) <;> rfl
  | _ => simp only [matchSlot, exactSlot]; split_ifs <;> rfl

theorem length_solutions_le
    (h : matchSlot contractConsensus allowEmptySenderSig opcode2 opcode1 vch1 st = .next st' solutions) :
    solutions.length ≤ if opcode2.pushesSolution then 1 else 0 := by
  cases opcode2 <;> simp only [matchSlot, exactSlot] at h <;>
    repeat' first | (split at h) | (split_ifs at h) | (cases h <;> simp [TemplateOp.pushesSolution])

theorem admits_of_matchSlot (hread : IsReadOp opcode1 vch1) (hop : OP_16 < opcode1)
    (h : matchSlot contractConsensus allowEmptySenderSig opcode2 opcode1 vch1 st = .next st' solutions) :
    opcode2.admits opcode1 = true := by
  have hvch : vch1 = [] := by
    apply hread
    have hlt : OP_PUSHDATA4.toNat < OP_16.toNat := by decide
    rw [UInt8.lt_iff_toNat_lt] at hop ⊢
    omega
  subst hvch
  cases opcode2 with
  | SMALLINTEGER =>
    -- an opcode above `OP_16` is no small integer
    have hsmall : ¬(opcode1 = OP_0 ∨ (OP_1 ≤ opcode1 ∧ opcode1 ≤ OP_16)) := by
      rw [UInt8.lt_iff_toNat_lt] at hop
      simp only [UInt8.le_iff_toNat_le, ← UInt8.toNat_inj]
      simp only [OP_0, OP_1, OP_16] at hop ⊢
      simp only [UInt8.reduceToNat] at hop ⊢
      omega
    simp [matchSlot, hsmall] at h
  | ADDRESS_TYPE =>
    simp [matchSlot, CScriptNum.vchToUint64, pure, Except.pure, addresstype.PUBKEYHASH] at h
  | PUBKEYS | exact =>
    simp only [matchSlot, exactSlot] at h
    split_ifs at h with hne
    simp_all [TemplateOp.admits]
  | _ => simp_all [matchSlot, TemplateOp.admits]

end Slot

theorem isReadOp_readKeys {fuel : Nat} {opcode1 : opcodetype} {vch1 : valtype} {rest : List UInt8}
    {keys : List valtype} {opcode1' : opcodetype} {vch1' : valtype} {rest' : List UInt8}
    (hread : IsReadOp opcode1 vch1)
    (h : readKeys fuel opcode1 vch1 rest = (keys, opcode1', vch1', rest')) : IsReadOp opcode1' vch1' := by
  induction fuel generalizing opcode1 vch1 rest keys with
  | zero =>
    cases h
    exact hread
  | succ fuel ih =>
    simp only [readKeys] at h
    split_ifs at h
    · split at h
      · cases h
        intro _
        rfl
      · rename_i opcode vch n hop
        rcases hnext : readKeys fuel opcode vch (rest.drop n) with ⟨keys', next⟩
        rw [hnext] at h
        obtain ⟨-, rfl⟩ := Prod.mk.inj h
        exact ih (isReadOp_of_getScriptOp hop) hnext
    · cases h
      exact hread

theorem find_readKeys {op : opcodetype} (hop : OP_PUSHDATA4 < op) (hinv : op ≠ OP_INVALIDOPCODE)
    {fuel : Nat} {s : List UInt8} {opcode1 : opcodetype} {vch1 : valtype} {n : Nat}
    (hs : getScriptOp s = some (opcode1, vch1, n))
    {keys : List valtype} {opcode1' : opcodetype} {vch1' : valtype} {rest' : List UInt8}
    (h : readKeys fuel opcode1 vch1 (s.drop n) = (keys, opcode1', vch1', rest')) :
    find s op = (if opcode1' = op then 1 else 0) + find rest' op := by
  induction fuel generalizing s opcode1 vch1 n keys with
  | zero =>
    cases h
    exact find_step hs op
  | succ fuel ih =>
    simp only [readKeys] at h
    split_ifs at h with hkey
    · have hne : opcode1 ≠ op := by
        intro heq
        subst heq
        have hnil := isReadOp_of_getScriptOp hs hop
        subst hnil
        simp at hkey
      rw [find_step hs op, if_neg hne, Nat.zero_add]
      split at h
      · rename_i hnone
        cases h
        rw [find_of_getScriptOp_none hnone, if_neg (fun h => hinv h.symm), find_nil]
      · rename_i opcode vch m hs'
        rcases hnext : readKeys fuel opcode vch ((s.drop n).drop m) with ⟨keys', next⟩
        rw [hnext] at h
        obtain ⟨-, rfl⟩ := Prod.mk.inj h
        exact ih hs' hnext
    · cases h
      exact find_step hs op

section Loop

variable {contractConsensus allowEmptySenderSig : Bool}

theorem MatchOutcome.prepend_eq_matched {r : MatchOutcome} {solutions vSolutions : List valtype}
    (h : r.prepend solutions = .matched vSolutions) :
    ∃ rest, r = .matched rest ∧ vSolutions = solutions ++ rest := by
  cases r with
  | matched rest => exact ⟨rest, rfl, (MatchOutcome.matched.inj h).symm⟩
  | mismatch => cases h
  | nonstandard => cases h

theorem matchLoop_pubkeys_eq (template : List TemplateOp) (script1 : List UInt8) (st : MatchState) :
    matchLoop contractConsensus allowEmptySenderSig (.PUBKEYS :: template) script1 st =
      match getScriptOp script1 with
      | none => .mismatch
      | some (opcode1, vch1, n) =>
        let (keys, opcode1, vch1, rest1) := readKeys script1.length opcode1 vch1 (script1.drop n)
        match template with
        | [] => .mismatch
        | opcode2 :: template =>
          match matchSlot contractConsensus allowEmptySenderSig opcode2 opcode1 vch1 st with
          | .next st solutions =>
            (matchLoop contractConsensus allowEmptySenderSig template rest1 st).prepend (keys ++ solutions)
          | .mismatch => .mismatch
          | .nonstandard => .nonstandard keys := by
  rw [matchLoop]

theorem matchLoop_cons_eq {opcode2 : TemplateOp} (hop : opcode2 ≠ .PUBKEYS) (template : List TemplateOp)
    (script1 : List UInt8) (st : MatchState) :
    matchLoop contractConsensus allowEmptySenderSig (opcode2 :: template) script1 st =
      match getScriptOp script1 with
      | none => .mismatch
      | some (opcode1, vch1, n) =>
        match matchSlot contractConsensus allowEmptySenderSig opcode2 opcode1 vch1 st with
        | .next st solutions =>
          (matchLoop contractConsensus allowEmptySenderSig template (script1.drop n) st).prepend solutions
        | .mismatch => .mismatch
        | .nonstandard => .nonstandard [] := by
  rw [matchLoop]
  exact hop

theorem matchLoop_none {opcode2 : TemplateOp} {s : List UInt8} (h : getScriptOp s = none)
    (template : List TemplateOp) (st : MatchState) :
    matchLoop contractConsensus allowEmptySenderSig (opcode2 :: template) s st = .mismatch := by
  by_cases hop : opcode2 = .PUBKEYS
  · rw [hop, matchLoop_pubkeys_eq, h]
  · rw [matchLoop_cons_eq hop, h]

theorem matchLoop_cons {opcode2 : TemplateOp} (hop : opcode2 ≠ .PUBKEYS) {s : List UInt8}
    {opcode1 : opcodetype} {vch1 : valtype} {n : Nat} (h : getScriptOp s = some (opcode1, vch1, n))
    (template : List TemplateOp) (st : MatchState) :
    matchLoop contractConsensus allowEmptySenderSig (opcode2 :: template) s st =
      match matchSlot contractConsensus allowEmptySenderSig opcode2 opcode1 vch1 st with
      | .next st solutions =>
        (matchLoop contractConsensus allowEmptySenderSig template (s.drop n) st).prepend solutions
      | .mismatch => .mismatch
      | .nonstandard => .nonstandard [] := by
  rw [matchLoop_cons_eq hop, h]

theorem matchLoop_pubkeys {s : List UInt8} {opcode1 : opcodetype} {vch1 : valtype} {n : Nat}
    (h : getScriptOp s = some (opcode1, vch1, n)) {keys : List valtype} {opcode1' : opcodetype}
    {vch1' : valtype} {rest1 : List UInt8}
    (hkeys : readKeys s.length opcode1 vch1 (s.drop n) = (keys, opcode1', vch1', rest1))
    (opcode2 : TemplateOp) (template : List TemplateOp) (st : MatchState) :
    matchLoop contractConsensus allowEmptySenderSig (.PUBKEYS :: opcode2 :: template) s st =
      match matchSlot contractConsensus allowEmptySenderSig opcode2 opcode1' vch1' st with
      | .next st solutions =>
        (matchLoop contractConsensus allowEmptySenderSig template rest1 st).prepend (keys ++ solutions)
      | .mismatch => .mismatch
      | .nonstandard => .nonstandard keys := by
  rw [matchLoop_pubkeys_eq, h]
  dsimp only
  rw [hkeys]

theorem matchLoop_pubkeys_nil {s : List UInt8} {opcode1 : opcodetype} {vch1 : valtype} {n : Nat}
    (h : getScriptOp s = some (opcode1, vch1, n)) (st : MatchState) :
    matchLoop contractConsensus allowEmptySenderSig [.PUBKEYS] s st = .mismatch := by
  rw [matchLoop_pubkeys_eq, h]

theorem matchLoop_consensus {template : List TemplateOp} {s : List UInt8} {st : MatchState}
    (h : ∀ v, matchLoop false allowEmptySenderSig template s st ≠ .nonstandard v) :
    matchLoop true allowEmptySenderSig template s st =
      matchLoop false allowEmptySenderSig template s st := by
  fun_induction matchLoop false allowEmptySenderSig template s st
  case case1 => rfl
  case case2 => rfl
  case case3 template s st hs => exact matchLoop_none hs _ _
  case case4 s st o v n hs keys o' v' rest hkeys => exact matchLoop_pubkeys_nil hs _
  case case5 s st o v n hs keys o' v' rest hkeys opcode2 template st' solutions hslot ih =>
    rw [matchLoop_pubkeys hs hkeys, matchSlot_consensus (by rw [hslot]; simp), hslot]
    dsimp only
    rw [ih (fun v hv => h (keys ++ solutions ++ v) (by rw [hv]; simp [MatchOutcome.prepend]))]
  case case6 s st o v n hs keys o' v' rest hkeys opcode2 template hslot =>
    rw [matchLoop_pubkeys hs hkeys, matchSlot_consensus (by rw [hslot]; simp), hslot]
  case case7 => exact absurd rfl (h _)
  case case8 opcode2 template s st hpk hs => exact matchLoop_none hs _ _
  case case9 opcode2 template s st hpk o v n hs st' solutions hslot ih =>
    rw [matchLoop_cons hpk hs, matchSlot_consensus (by rw [hslot]; simp), hslot]
    dsimp only
    rw [ih (fun v hv => h (solutions ++ v) (by rw [hv]; simp [MatchOutcome.prepend]))]
  case case10 opcode2 template s st hpk o v n hs hslot =>
    rw [matchLoop_cons hpk hs, matchSlot_consensus (by rw [hslot]; simp), hslot]
  case case11 => exact absurd rfl (h _)
end Loop

section Scan

variable {contractConsensus allowEmptySenderSig : Bool} {s : CScript}

theorem scanTemplates_cons_mismatch {type : txnouttype} {template : List TemplateOp}
    (h : matchLoop contractConsensus allowEmptySenderSig template s {} = .mismatch)
    (templates : List (txnouttype × List TemplateOp)) :
    scanTemplates contractConsensus allowEmptySenderSig s ((type, template) :: templates) =
      scanTemplates contractConsensus allowEmptySenderSig s templates := by
  simp only [scanTemplates, h]

theorem scanTemplates_cons_matched {type : txnouttype} (htype : type ≠ .TX_MULTISIG)
    {template : List TemplateOp} {vSolutions : List valtype}
    (h : matchLoop contractConsensus allowEmptySenderSig template s {} = .matched vSolutions)
    (templates : List (txnouttype × List TemplateOp)) :
    scanTemplates contractConsensus allowEmptySenderSig s ((type, template) :: templates) =
      (type, vSolutions) := by
  simp [scanTemplates, h, htype]

theorem scanTemplates_spec {templates : List (txnouttype × List TemplateOp)} {type : txnouttype}
    {vSolutions : List valtype}
    (h : scanTemplates contractConsensus allowEmptySenderSig s templates = (type, vSolutions))
    (hne : type ≠ .TX_NONSTANDARD) :
    ∃ (i : Nat) (template : List TemplateOp), templates[i]? = some (type, template) ∧
      matchLoop contractConsensus allowEmptySenderSig template s {} = .matched vSolutions ∧
      ∀ j < i, ∃ p : txnouttype × List TemplateOp, templates[j]? = some p ∧
        matchLoop contractConsensus allowEmptySenderSig p.2 s {} = .mismatch := by
  induction templates with
  | nil =>
    cases h
    exact absurd rfl hne
  | cons p templates ih =>
    obtain ⟨type', template'⟩ := p
    simp only [scanTemplates] at h
    split at h
    · rename_i v hmatch
      split_ifs at h
      · cases h
        exact absurd rfl hne
      · cases h
        exact ⟨0, template', rfl, hmatch, fun j hj => absurd hj (Nat.not_lt_zero j)⟩
    · rename_i hmismatch
      obtain ⟨i, template, hi, hmatch, hbefore⟩ := ih h
      refine ⟨i + 1, template, hi, hmatch, fun j hj => ?_⟩
      cases j with
      | zero => exact ⟨(type', template'), rfl, hmismatch⟩
      | succ j => exact hbefore j (by omega)
    · cases h
      exact absurd rfl hne

end Scan

theorem senderTemplate_map :
    senderTemplate.map TemplateOp.ofOpcode = [.ADDRESS_TYPE, .ADDRESS, .SCRIPT_SIG, .exact OP_SENDER] := by
  decide

theorem mTemplates_eq : mTemplates =
    [(.TX_PUBKEY, [.PUBKEY, .exact OP_CHECKSIG]),
     (.TX_PUBKEYHASH, [.exact OP_DUP, .exact OP_HASH160, .PUBKEYHASH, .exact OP_EQUALVERIFY,
       .exact OP_CHECKSIG]),
     (.TX_MULTISIG, [.SMALLINTEGER, .PUBKEYS, .SMALLINTEGER, .exact OP_CHECKMULTISIG]),
     (.TX_CREATE_SENDER, senderTemplate.map TemplateOp.ofOpcode ++ createTemplate.map TemplateOp.ofOpcode),
     (.TX_CALL_SENDER, senderTemplate.map TemplateOp.ofOpcode ++ callTemplate.map TemplateOp.ofOpcode),
     (.TX_CREATE, createTemplate.map TemplateOp.ofOpcode),
     (.TX_CALL, callTemplate.map TemplateOp.ofOpcode)] := by
  simp only [mTemplates, List.map_cons, List.map_nil, List.map_append]
  decide

section Solver

variable {contractConsensus allowEmptySenderSig : Bool}

theorem solver_eq_scanTemplates {s : CScript}
    (h : (solver s contractConsensus allowEmptySenderSig).1 ∈
      [.TX_PUBKEY, .TX_PUBKEYHASH, .TX_MULTISIG, .TX_CREATE_SENDER, .TX_CALL_SENDER, .TX_CREATE,
        .TX_CALL]) :
    solver s contractConsensus allowEmptySenderSig =
      scanTemplates contractConsensus allowEmptySenderSig s mTemplates := by
  unfold solver at h ⊢
  by_cases hsh : isPayToScriptHash s = true
  · rw [if_pos hsh] at h
    simp at h
  rw [if_neg hsh] at h ⊢
  rcases hwit : isWitnessProgram s with _ | ⟨witnessversion, witnessprogram⟩
  · simp only [hwit] at h ⊢
    by_cases hnull : s.head? = some OP_RETURN ∧ isPushOnly (s.drop 1) = true
    · rw [if_pos hnull] at h
      simp at h
    · exact if_neg hnull
  · simp only [hwit] at h
    split_ifs at h <;> simp at h

theorem solver_of_head_push_one {t : List UInt8} :
    solver (1 :: t) contractConsensus allowEmptySenderSig =
      scanTemplates contractConsensus allowEmptySenderSig (1 :: t) mTemplates := by
  have hsh : ¬isPayToScriptHash (1 :: t) = true := by
    simp [isPayToScriptHash, OP_HASH160]
  have hwit : isWitnessProgram (1 :: t) = none := by
    unfold isWitnessProgram
    split_ifs
    · rfl
    · split
      · rename_i version size program heq
        obtain ⟨rfl, -⟩ := List.cons.inj heq
        rw [if_pos (by decide)]
      · rfl
  have hnull : ¬((1 :: t).head? = some OP_RETURN ∧ isPushOnly ((1 :: t).drop 1) = true) := by
    simp [OP_RETURN]
  unfold solver
  rw [if_neg hsh, hwit]
  exact if_neg hnull

end Solver

section SenderOutput

variable {keyID scriptSig : valtype} {contract : CScript}

theorem serialize_PUBKEYHASH : CScriptNum.serialize addresstype.PUBKEYHASH = [1] := by decide

theorem pushData_lt {b : valtype} (hb : b.length < 2 ^ 32) :
    ∃ opcode ≤ OP_PUSHDATA4, getScriptOp (pushData b) = some (opcode, b, (pushData b).length) ∧
      opcode ≠ OP_SENDER := by
  obtain ⟨opcode, hle, hop⟩ := getScriptOp_pushData hb
  refine ⟨opcode, hle, hop, fun heq => ?_⟩
  subst heq
  exact absurd hle (by decide)

theorem splitAt_senderOutputScript (hkey : keyID.length < 2 ^ 32) (hsig : scriptSig.length < 2 ^ 32) :
    SplitAt OP_SENDER (senderOutputScript keyID scriptSig contract)
      [pushData (CScriptNum.serialize addresstype.PUBKEYHASH), pushData keyID, pushData scriptSig]
      [OP_SENDER] contract := by
  refine ⟨by simp [senderOutputScript], fun x hx => ?_, ⟨[], by decide⟩⟩
  simp only [List.mem_cons, List.mem_nil_iff, or_false] at hx
  rcases hx with rfl | rfl | rfl
  · exact ⟨1, [1], by decide, by rw [serialize_PUBKEYHASH]; decide⟩
  · obtain ⟨opcode, -, hop, hne⟩ := pushData_lt hkey
    exact ⟨opcode, _, hne, hop⟩
  · obtain ⟨opcode, -, hop, hne⟩ := pushData_lt hsig
    exact ⟨opcode, _, hne, hop⟩

theorem updateSenderSig_senderOutputScript (hkey : keyID.length < 2 ^ 32)
    (hsig : scriptSig.length < 2 ^ 32) (scriptSig' : valtype) :
    updateSenderSig (senderOutputScript keyID scriptSig contract) scriptSig' =
      some (senderOutputScript keyID scriptSig' contract) := by
  rw [updateSenderSig, replaceParam_of_splitAt (splitAt_senderOutputScript hkey hsig), if_neg (by decide)]
  simp [replaceOp, senderOutputScript]

theorem withoutSenderSig_senderOutputScript (hkey : keyID.length < 2 ^ 32)
    (hsig : scriptSig.length < 2 ^ 32) :
    withoutSenderSig (senderOutputScript keyID scriptSig contract) =
      senderOutputScript keyID [] contract := by
  rw [withoutSenderSig, updateSenderSig_senderOutputScript hkey hsig]
  rfl

theorem find_senderOutputScript (hkey : keyID.length < 2 ^ 32) (hsig : scriptSig.length < 2 ^ 32) :
    find (senderOutputScript keyID scriptSig contract) OP_SENDER = 1 + find contract OP_SENDER := by
  have hread : getScriptOp (OP_SENDER :: contract) = some (OP_SENDER, [], 1) := by
    simp [getScriptOp, OP_SENDER, OP_PUSHDATA4]
  rw [find_of_splitAt (splitAt_senderOutputScript hkey hsig), List.singleton_append,
    find_step hread, if_pos rfl, List.drop_one, List.tail_cons]

theorem senderOutputScript_eq :
    senderOutputScript keyID scriptSig contract =
      1 :: 1 :: (pushData keyID ++ (pushData scriptSig ++ OP_SENDER :: contract)) := by
  simp [senderOutputScript, serialize_PUBKEYHASH, pushData, OP_PUSHDATA1]

/-- The sender fields, one slot each: the address type, the key hash, whose
pay-to-key-hash script is the first solution, the signature script, the
second, and `OP_SENDER`. The contract is then compared with the rest of the
template. -/
theorem matchLoop_senderOutputScript {contractConsensus : Bool} (hkey : keyID.length = 20)
    (hsig : scriptSig ≠ []) (hsize : scriptSig.length ≤ MAX_BASE_SCRIPT_SIZE)
    (template : List TemplateOp) :
    matchLoop contractConsensus false (senderTemplate.map TemplateOp.ofOpcode ++ template)
        (senderOutputScript keyID scriptSig contract) {} =
      (matchLoop contractConsensus false template contract
        { addressType := addresstype.PUBKEYHASH }).prepend
        [serScript (getScriptForDestination keyID), scriptSig] := by
  have hsize' : scriptSig.length < 2 ^ 32 := by
    unfold MAX_BASE_SCRIPT_SIZE at hsize
    omega
  obtain ⟨opk, -, hk, -⟩ := pushData_lt (show keyID.length < 2 ^ 32 by omega)
  obtain ⟨ops, hops, hs, -⟩ := pushData_lt hsize'
  have hsender : getScriptOp (OP_SENDER :: contract) = some (OP_SENDER, [], 1) := by
    simp [getScriptOp, OP_SENDER, OP_PUSHDATA4]
  have hslotType : matchSlot contractConsensus false .ADDRESS_TYPE 1 [1] {} =
      .next { addressType := addresstype.PUBKEYHASH } [] := rfl
  have hslotKey : matchSlot contractConsensus false .ADDRESS opk keyID
      { addressType := addresstype.PUBKEYHASH } =
      .next { addressType := addresstype.PUBKEYHASH } [serScript (getScriptForDestination keyID)] := by
    simp [matchSlot, hkey]
  have hslotSig : matchSlot contractConsensus false .SCRIPT_SIG ops scriptSig
      { addressType := addresstype.PUBKEYHASH } =
      .next { addressType := addresstype.PUBKEYHASH } [scriptSig] := by
    simp [matchSlot, hops, hsig, Nat.not_lt.mpr hsize]
  have hslotSender : matchSlot contractConsensus false (.exact OP_SENDER) OP_SENDER []
      { addressType := addresstype.PUBKEYHASH } = .next { addressType := addresstype.PUBKEYHASH } [] :=
    rfl
  rw [senderTemplate_map, senderOutputScript_eq]
  simp only [List.cons_append, List.nil_append]
  have htype : getScriptOp (1 :: 1 :: (pushData keyID ++ (pushData scriptSig ++ OP_SENDER :: contract))) =
      some (1, [1], 2) :=
    getScriptOp_append (show getScriptOp [1, 1] = some (1, [1], 2) by decide) _
  rw [matchLoop_cons (by decide) htype, hslotType]
  dsimp only
  rw [List.drop_succ_cons, List.drop_succ_cons, List.drop_zero,
    matchLoop_cons (by decide) (getScriptOp_append hk _), hslotKey]
  dsimp only
  rw [List.drop_left, matchLoop_cons (by decide) (getScriptOp_append hs _), hslotSig]
  dsimp only
  rw [List.drop_left, matchLoop_cons (by decide) hsender, hslotSender]
  dsimp only
  rw [List.drop_one, List.tail_cons]
  cases matchLoop contractConsensus false template contract { addressType := addresstype.PUBKEYHASH } <;>
    rfl

theorem scanTemplates_senderOutputScript {contractConsensus : Bool} :
    scanTemplates contractConsensus false (senderOutputScript keyID scriptSig contract) mTemplates =
      scanTemplates contractConsensus false (senderOutputScript keyID scriptSig contract)
        (mTemplates.drop 3) := by
  have htype : getScriptOp (senderOutputScript keyID scriptSig contract) = some (1, [1], 2) := by
    rw [senderOutputScript_eq]
    exact getScriptOp_append (show getScriptOp [1, 1] = some (1, [1], 2) by decide) _
  rw [mTemplates_eq, scanTemplates_cons_mismatch (by rw [matchLoop_cons (by decide) htype]; rfl),
    scanTemplates_cons_mismatch (by rw [matchLoop_cons (by decide) htype]; rfl),
    scanTemplates_cons_mismatch (by rw [matchLoop_cons (by decide) htype]; rfl)]
  rfl

theorem matchLoop_true_of {contractConsensus : Bool} {template : List TemplateOp} {s : List UInt8}
    {st : MatchState} {r : MatchOutcome}
    (h : matchLoop contractConsensus false template s st = r) (hr : ∀ v, r ≠ .nonstandard v) :
    matchLoop true false template s st = r := by
  cases contractConsensus
  · rw [matchLoop_consensus (by rw [h]; exact hr), h]
  · exact h

end SenderOutput

section Sender

variable {keyID : valtype} {contract : CScript}

variable {contractConsensus allowEmptySenderSig : Bool}


theorem matchLoop_addressType {template : List TemplateOp} (h₁ : .ADDRESS ∉ template)
    (h₂ : .ADDRESS_TYPE ∉ template) {s : List UInt8} {st : MatchState} (a : Nat) :
    matchLoop contractConsensus allowEmptySenderSig template s { st with addressType := a } =
      matchLoop contractConsensus allowEmptySenderSig template s st := by
  fun_induction matchLoop contractConsensus allowEmptySenderSig template s st
  case case1 => rfl
  case case2 => rfl
  case case3 template s st hs => exact matchLoop_none hs _ _
  case case4 s st o v n hs keys o' v' rest hkeys => exact matchLoop_pubkeys_nil hs _
  case case5 s st o v n hs keys o' v' rest hkeys opcode2 template st' solutions hslot ih =>
    rw [matchLoop_pubkeys hs hkeys, matchSlot_addressType (by grind) (by grind) a, hslot]
    dsimp only
    rw [ih (by grind) (by grind)]
  case case6 s st o v n hs keys o' v' rest hkeys opcode2 template hslot =>
    rw [matchLoop_pubkeys hs hkeys, matchSlot_addressType (by grind) (by grind) a, hslot]
  case case7 s st o v n hs keys o' v' rest hkeys opcode2 template hslot =>
    rw [matchLoop_pubkeys hs hkeys, matchSlot_addressType (by grind) (by grind) a, hslot]
  case case8 opcode2 template s st hpk hs => exact matchLoop_none hs _ _
  case case9 opcode2 template s st hpk o v n hs st' solutions hslot ih =>
    rw [matchLoop_cons hpk hs, matchSlot_addressType (by grind) (by grind) a, hslot]
    dsimp only
    rw [ih (by grind) (by grind)]
  case case10 opcode2 template s st hpk o v n hs hslot =>
    rw [matchLoop_cons hpk hs, matchSlot_addressType (by grind) (by grind) a, hslot]
  case case11 opcode2 template s st hpk o v n hs hslot =>
    rw [matchLoop_cons hpk hs, matchSlot_addressType (by grind) (by grind) a, hslot]

/-- A contract script that the templates take as a creation or a call in
either mode, behind the sender fields of `keyID` signed with `S`: consensus
mode solves it as the sender kind of the same contract kind, the first two
solutions being the key's script and `S`, each serialized. -/
theorem solver_senderOutputScript {contractConsensus : Bool} (hkey : keyID.length = 20) {S : CScript}
    (hS : (serScript S).length ≤ MAX_BASE_SCRIPT_SIZE)
    (hc : (solver contract contractConsensus false).1 = .TX_CREATE ∨
      (solver contract contractConsensus false).1 = .TX_CALL) :
    ∃ vSolutions, solver (senderOutputScript keyID (serScript S) contract) true false =
      (if (solver contract contractConsensus false).1 = .TX_CREATE then .TX_CREATE_SENDER
        else .TX_CALL_SENDER, serScript (getScriptForDestination keyID) :: serScript S :: vSolutions) := by
  have hsig : serScript S ≠ [] := List.ne_nil_of_length_pos (length_serScript_pos S)
  have hsender (template : List TemplateOp) :
      matchLoop true false (senderTemplate.map TemplateOp.ofOpcode ++ template)
          (senderOutputScript keyID (serScript S) contract) {} =
        (matchLoop true false template contract { addressType := addresstype.PUBKEYHASH }).prepend
          [serScript (getScriptForDestination keyID), serScript S] :=
    matchLoop_senderOutputScript hkey hsig hS template
  rcases hsolved : solver contract contractConsensus false with ⟨type, vSolutions⟩
  simp only [hsolved] at hc ⊢
  have hscan : scanTemplates contractConsensus false contract mTemplates = (type, vSolutions) := by
    rw [← solver_eq_scanTemplates (by rw [hsolved]; rcases hc with rfl | rfl <;> simp), hsolved]
  obtain ⟨i, template, hi, hmatch, hbefore⟩ :=
    scanTemplates_spec hscan (by rcases hc with rfl | rfl <;> decide)
  -- the contract is compared with the same template behind the sender fields, in
  -- consensus mode and with the address type read
  have hframe (template : List TemplateOp) (h₁ : .ADDRESS ∉ template) (h₂ : .ADDRESS_TYPE ∉ template)
      {r : MatchOutcome} (hr : matchLoop contractConsensus false template contract {} = r)
      (hns : ∀ v, r ≠ .nonstandard v) :
      matchLoop true false template contract { addressType := addresstype.PUBKEYHASH } = r := by
    rw [show ({ addressType := addresstype.PUBKEYHASH } : MatchState) =
      { ({} : MatchState) with addressType := addresstype.PUBKEYHASH } from rfl,
      matchLoop_addressType h₁ h₂]
    exact matchLoop_true_of hr hns
  refine ⟨vSolutions, ?_⟩
  rw [senderOutputScript_eq, solver_of_head_push_one, ← senderOutputScript_eq,
    scanTemplates_senderOutputScript, mTemplates_eq]
  simp only [List.drop_succ_cons, List.drop_zero]
  rw [mTemplates_eq] at hi hbefore
  rcases hc with rfl | rfl
  · obtain _ | _ | _ | _ | _ | _ | _ | i := i <;> simp at hi
    subst hi
    have hcreate := hframe _ (by decide) (by decide) hmatch (by simp)
    rw [scanTemplates_cons_matched (by decide) (by rw [hsender, hcreate]; rfl)]
    rfl
  · obtain _ | _ | _ | _ | _ | _ | _ | i := i <;> simp at hi
    subst hi
    obtain ⟨p, hp, hmismatch⟩ := hbefore 5 (by decide)
    simp only [List.getElem?_cons_succ, List.getElem?_cons_zero, Option.some.injEq] at hp
    subst hp
    have hcreate := hframe _ (by decide) (by decide) hmismatch (by simp)
    have hcall := hframe _ (by decide) (by decide) hmatch (by simp)
    rw [scanTemplates_cons_mismatch (by rw [hsender, hcreate]; rfl),
      scanTemplates_cons_matched (by decide) (by rw [hsender, hcall]; rfl)]
    rfl

theorem readScript_serScript {script : CScript} (h : script.length ≤ MAX_SIZE) :
    readScript (serScript script) = some (script, []) := by
  simpa using roundTrip_script script [] h

theorem extractSenderData_senderOutputScript {contractConsensus : Bool} (hkey : keyID.length = 20)
    {S : CScript} (hS : (serScript S).length ≤ MAX_BASE_SCRIPT_SIZE)
    (hc : (solver contract contractConsensus false).1 = .TX_CREATE ∨
      (solver contract contractConsensus false).1 = .TX_CALL)
    (hnosender : find contract OP_SENDER = 0) :
    extractSenderData (senderOutputScript keyID (serScript S) contract) =
      some (getScriptForDestination keyID, S) := by
  obtain ⟨vSolutions, hsolved⟩ := solver_senderOutputScript hkey hS hc
  -- which of the two sender kinds does not matter here
  obtain ⟨type, htype, hsolved⟩ : ∃ type, type ≠ .TX_NONSTANDARD ∧
      solver (senderOutputScript keyID (serScript S) contract) true false =
        (type, serScript (getScriptForDestination keyID) :: serScript S :: vSolutions) :=
    ⟨_, by split_ifs <;> simp, hsolved⟩
  have hmax : MAX_BASE_SCRIPT_SIZE ≤ MAX_SIZE := by decide
  have hlen : (serScript S).length < 2 ^ 32 := by
    unfold MAX_BASE_SCRIPT_SIZE at hS
    omega
  have hsender : hasOpSender (senderOutputScript keyID (serScript S) contract) = true := by
    rw [hasOpSender, find_senderOutputScript (show keyID.length < 2 ^ 32 by omega) hlen, hnosender]
    rfl
  have hpk : (getScriptForDestination keyID).length ≤ MAX_SIZE := by
    simp [getScriptForDestination, pushData, hkey, OP_PUSHDATA1, MAX_SIZE]
  have hsig : S.length ≤ MAX_SIZE := by
    have := length_serScript_pos S
    simp only [serScript, List.length_append] at hS
    omega
  simp [extractSenderData, hsender, hsolved, htype, readScript_serScript hpk, readScript_serScript hsig]

end Sender

section Converse

variable {contractConsensus allowEmptySenderSig : Bool}

theorem find_le_of_matchLoop {op : opcodetype} (hop : OP_16 < op) (hinv : op ≠ OP_INVALIDOPCODE)
    {template : List TemplateOp} {s : List UInt8} {st : MatchState} {vSolutions : List valtype}
    (h : matchLoop contractConsensus allowEmptySenderSig template s st = .matched vSolutions) :
    find s op ≤ template.countP (·.admits op) := by
  have hpush : OP_PUSHDATA4 < op := by
    have hlt : OP_PUSHDATA4.toNat < OP_16.toNat := by decide
    rw [UInt8.lt_iff_toNat_lt] at hop ⊢
    omega
  -- an operation `op` read in a slot is one the slot admits
  have hcount {opcode1 : opcodetype} {vch1 : valtype} {opcode2 : TemplateOp} {st st' : MatchState}
      {solutions : List valtype} (hread : IsReadOp opcode1 vch1)
      (hslot : matchSlot contractConsensus allowEmptySenderSig opcode2 opcode1 vch1 st =
        .next st' solutions) :
      (if opcode1 = op then 1 else 0) ≤ if opcode2.admits op then 1 else 0 := by
    by_cases heq : opcode1 = op
    · subst heq
      rw [if_pos rfl, if_pos (admits_of_matchSlot hread hop hslot)]
    · rw [if_neg heq]
      exact Nat.zero_le _
  fun_induction matchLoop contractConsensus allowEmptySenderSig template s st generalizing vSolutions
  case case1 => simp [find_nil]
  case case5 s st o v n hs keys o' v' rest hkeys opcode2 template st' solutions hslot ih =>
    obtain ⟨rest₁, hrest, -⟩ := MatchOutcome.prepend_eq_matched h
    have hslot' := hcount (isReadOp_readKeys (isReadOp_of_getScriptOp hs) hkeys) hslot
    rw [find_readKeys hpush hinv hs hkeys, List.countP_cons, List.countP_cons]
    have := ih hrest
    omega
  case case9 opcode2 template s st hpk o v n hs st' solutions hslot ih =>
    obtain ⟨rest₁, hrest, -⟩ := MatchOutcome.prepend_eq_matched h
    have hslot' := hcount (isReadOp_of_getScriptOp hs) hslot
    rw [find_step hs op, List.countP_cons]
    have := ih hrest
    omega
  all_goals cases h

theorem length_le_of_matchLoop {template : List TemplateOp} (hkeys : .PUBKEYS ∉ template)
    {s : List UInt8} {st : MatchState} {vSolutions : List valtype}
    (h : matchLoop contractConsensus allowEmptySenderSig template s st = .matched vSolutions) :
    vSolutions.length ≤ template.countP (·.pushesSolution) := by
  fun_induction matchLoop contractConsensus allowEmptySenderSig template s st generalizing vSolutions
  case case1 =>
    cases h
    rfl
  case case5 => exact absurd List.mem_cons_self hkeys
  case case9 opcode2 template s st hpk o v n hs st' solutions hslot ih =>
    obtain ⟨rest₁, hrest, rfl⟩ := MatchOutcome.prepend_eq_matched h
    have hsol := length_solutions_le hslot
    have hrest₁ := ih (fun hm => hkeys (List.mem_cons_of_mem _ hm)) hrest
    rw [List.length_append, List.countP_cons]
    split_ifs at hsol ⊢ <;> omega
  all_goals cases h

theorem find_of_isWitnessProgram {s : CScript} {witnessversion : Nat} {witnessprogram : valtype}
    (h : isWitnessProgram s = some (witnessversion, witnessprogram)) : find s OP_SENDER = 0 := by
  unfold isWitnessProgram at h
  split_ifs at h with hlen
  match s, h with
  | version :: size :: program, h =>
    simp only at h
    split_ifs at h with hver hsize
    have hsmall : version.toNat = 0 ∨ (0x51 ≤ version.toNat ∧ version.toNat ≤ 0x60) := by
      simp only [ne_eq, not_and, not_or, UInt8.lt_iff_toNat_lt, ← UInt8.toNat_inj] at hver
      simp only [OP_0, OP_1, OP_16, UInt8.reduceToNat] at hver
      omega
    simp only [List.length_cons] at hlen hsize
    have hprog : program.length = size.toNat := by omega
    -- the version is one operation with no data
    have hv : getScriptOp (version :: size :: program) = some (version, [], 1) := by
      simp only [getScriptOp]
      split_ifs with hpush
      · have h0 : version = 0 := by
          rw [UInt8.le_iff_toNat_le] at hpush
          simp only [OP_PUSHDATA4, UInt8.reduceToNat] at hpush
          exact UInt8.toNat_inj.mp (by simp; omega)
        subst h0
        simp [pushSize, OP_PUSHDATA1]
      · rfl
    -- the size is a direct push of the rest
    have hp : getScriptOp (size :: ([] ++ program)) =
        some (size, program, (size :: ([] ++ program)).length) := by
      have hsize' : size.toNat < 0x4c := by omega
      apply getScriptOp_push
      · rw [UInt8.le_iff_toNat_le]
        simp only [OP_PUSHDATA4, UInt8.reduceToNat]
        omega
      · simp [pushSize, UInt8.lt_iff_toNat_lt, OP_PUSHDATA1, hsize', hprog]
    have hsender : OP_SENDER.toNat = 0xc4 := rfl
    rw [find_step hv, if_neg (fun heq => by rw [← UInt8.toNat_inj] at heq; omega), List.drop_one, List.tail_cons,
      show size :: program = size :: ([] ++ program) from rfl, find_step hp,
      if_neg (fun heq => by rw [← UInt8.toNat_inj] at heq; omega), List.drop_length, find_nil]

/-- A script with an OP_SENDER is either of a sender kind, or not solved, or
solved with at most one solution: the kinds with more (multisig, unknown
witness versions) have no OP_SENDER. -/
theorem solutions_length_le_one {contractConsensus allowEmptySenderSig : Bool} {s : CScript}
    (hsender : find s OP_SENDER ≠ 0)
    (hkind : (solver s contractConsensus allowEmptySenderSig).1 ∉
      [.TX_NONSTANDARD, .TX_CREATE_SENDER, .TX_CALL_SENDER]) :
    (solver s contractConsensus allowEmptySenderSig).2.length ≤ 1 := by
  unfold solver at hkind ⊢
  by_cases hsh : isPayToScriptHash s = true
  · simp [hsh]
  rw [if_neg hsh] at hkind ⊢
  rcases hwit : isWitnessProgram s with _ | ⟨witnessversion, witnessprogram⟩
  · simp only [hwit] at hkind ⊢
    by_cases hnull : s.head? = some OP_RETURN ∧ isPushOnly (s.drop 1) = true
    · rw [if_pos hnull]
      simp
    rw [if_neg hnull] at hkind ⊢
    rcases hscan : scanTemplates contractConsensus allowEmptySenderSig s mTemplates with
      ⟨type, vSolutions⟩
    rw [hscan] at hkind
    simp only [List.mem_cons, List.not_mem_nil, or_false, not_or] at hkind
    obtain ⟨i, template, hi, hmatch, -⟩ := scanTemplates_spec hscan hkind.1
    rw [mTemplates_eq] at hi
    -- one case per template
    obtain _ | _ | _ | _ | _ | _ | _ | i := i <;> simp at hi <;> obtain ⟨rfl, rfl⟩ := hi
    · exact length_le_of_matchLoop (by decide) hmatch
    · exact length_le_of_matchLoop (by decide) hmatch
    · have hfind : find s OP_SENDER ≤ _ := find_le_of_matchLoop (by decide) (by decide) hmatch
      exact absurd (Nat.le_zero.mp (hfind.trans (by decide))) hsender
    · exact absurd rfl hkind.2.1
    · exact absurd rfl hkind.2.2
    · exact (length_le_of_matchLoop (by decide) hmatch).trans (by decide)
    · exact length_le_of_matchLoop (by decide) hmatch
  · simp only [hwit] at hkind ⊢
    split_ifs at hkind ⊢ with hkey hscript hversion
    · simp
    · simp
    · exact absurd (find_of_isWitnessProgram hwit) hsender
    · simp at hkind

theorem extractSenderData_eq_none {o : CScript}
    (h : ∀ contractConsensus, (solver o contractConsensus false).1 ≠ .TX_CREATE_SENDER ∧
      (solver o contractConsensus false).1 ≠ .TX_CALL_SENDER) :
    extractSenderData o = none := by
  unfold extractSenderData
  split_ifs with hsender
  · have hfind : find o OP_SENDER ≠ 0 := by
      simp only [hasOpSender, beq_iff_eq] at hsender
      omega
    -- the solutions read are those of one of the two modes
    obtain ⟨contractConsensus, hsolved⟩ : ∃ contractConsensus,
        (if (solver o true false).1 = .TX_NONSTANDARD then solver o false false
          else solver o true false) = solver o contractConsensus false := by
      split_ifs
      · exact ⟨false, rfl⟩
      · exact ⟨true, rfl⟩
    simp only [hsolved]
    split_ifs with hns
    · rfl
    · have hle : (solver o contractConsensus false).2.length ≤ 1 :=
        solutions_length_le_one hfind (by simp [hns, (h contractConsensus).1, (h contractConsensus).2])
      rcases hsol : (solver o contractConsensus false).2 with _ | ⟨a, _ | ⟨b, rest⟩⟩
      · rfl
      · rfl
      · rw [hsol] at hle
        simp at hle
  · rfl

end Converse

/-- The sender output `createcontract` and `sendtocontract` write for the key
`keyID`, signed with `S`: consensus mode solves it as the sender kind of its
contract, `ExtractSenderData` gives the key's pay-to-key-hash script and `S`
back, and removing the signature gives the unsigned output again, for every
contract of a creation or a call that has no OP_SENDER of its own. Conversely
a script that neither mode solves as a sender kind gives no sender data. -/
theorem senderOutput_decodes :
    (∀ (keyID : valtype) (S contract : CScript) (contractConsensus : Bool),
      keyID.length = 20 → (serScript S).length ≤ MAX_BASE_SCRIPT_SIZE →
      ((solver contract contractConsensus false).1 = .TX_CREATE ∨
        (solver contract contractConsensus false).1 = .TX_CALL) →
      find contract OP_SENDER = 0 →
      ∃ o, updateSenderSig (senderOutputScript keyID [] contract) (serScript S) = some o ∧
        (solver o true false).1 =
          (if (solver contract contractConsensus false).1 = .TX_CREATE then .TX_CREATE_SENDER
            else .TX_CALL_SENDER) ∧
        extractSenderData o = some (getScriptForDestination keyID, S) ∧
        withoutSenderSig o = senderOutputScript keyID [] contract) ∧
    (∀ o : CScript, (∀ contractConsensus, (solver o contractConsensus false).1 ≠ .TX_CREATE_SENDER ∧
        (solver o contractConsensus false).1 ≠ .TX_CALL_SENDER) →
      extractSenderData o = none) := by
  refine ⟨fun keyID S contract contractConsensus hkey hS hc hnosender => ?_,
    fun o h => extractSenderData_eq_none h⟩
  have hlen : (serScript S).length < 2 ^ 32 := by
    unfold MAX_BASE_SCRIPT_SIZE at hS
    omega
  have hkey' : keyID.length < 2 ^ 32 := by omega
  refine ⟨senderOutputScript keyID (serScript S) contract,
    updateSenderSig_senderOutputScript hkey' (by simp) _, ?_,
    extractSenderData_senderOutputScript hkey hS hc hnosender,
    withoutSenderSig_senderOutputScript hkey' hlen⟩
  obtain ⟨vSolutions, hsolved⟩ := solver_senderOutputScript hkey hS hc
  rw [hsolved]

/-- A creation behind the sender fields of a key, signed with the empty
script. -/
theorem senderOutput_decodes_create :
    ∃ o, updateSenderSig (senderOutputScript (List.replicate 20 7) []
        (pushData (CScriptNum.serialize 4) ++ pushData (CScriptNum.serialize 100000) ++
          pushData (CScriptNum.serialize 40) ++ pushData [0x60] ++ [OP_CREATE])) (serScript []) = some o ∧
      (solver o true false).1 =
        (if (solver (pushData (CScriptNum.serialize 4) ++ pushData (CScriptNum.serialize 100000) ++
            pushData (CScriptNum.serialize 40) ++ pushData [0x60] ++ [OP_CREATE]) false false).1 =
            .TX_CREATE then .TX_CREATE_SENDER else .TX_CALL_SENDER) ∧
      extractSenderData o = some (getScriptForDestination (List.replicate 20 7), []) ∧
      withoutSenderSig o = senderOutputScript (List.replicate 20 7) []
        (pushData (CScriptNum.serialize 4) ++ pushData (CScriptNum.serialize 100000) ++
          pushData (CScriptNum.serialize 40) ++ pushData [0x60] ++ [OP_CREATE]) :=
  senderOutput_decodes.1 _ _ _ false (by decide) (by decide) (Or.inl (by decide)) (by decide)

/-- A creation whose data slot holds OP_SENDER is a creation, but behind the
sender fields its output has two OP_SENDERs, and no sender data is read from
it. -/
theorem senderOutput_contract_with_sender :
    let c : CScript := pushData (CScriptNum.serialize 4) ++ pushData (CScriptNum.serialize 100000) ++
      pushData (CScriptNum.serialize 40) ++ [OP_SENDER, OP_CREATE]
    let k : valtype := List.replicate 20 7
    (solver c false false).1 = .TX_CREATE ∧
      (updateSenderSig (senderOutputScript k [] c) (serScript [])).map (fun o => (solver o true false).1) =
        some .TX_CREATE_SENDER ∧
      (updateSenderSig (senderOutputScript k [] c) (serScript [])).map extractSenderData = some none := by
  decide

end YuPost.Script
