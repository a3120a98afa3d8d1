import Mathlib
import YuPost.Primitives.Transaction

/-! The digest an OP_SENDER signature commits to, from `script/interpreter.cpp`
(`GetOutputWithoutSenderSig`, `GetOutputsOpSenderHash`, `SignatureHashOutput`),
and the signing step `UpdateOutput` of `script/sign.cpp`.

`H` is the `CHashWriter` digest of a byte stream. `PrecomputedTransactionData`
is not modelled: it is filled for every transaction with an OP_SENDER output,
which is the only kind `SignatureHashOutput` is called on, and then holds the
digests computed here. -/

namespace YuPost.Script

open YuPost.Lib YuPost.Primitives

def SIGHASH_NONE : Int32 := 2
def SIGHASH_SINGLE : Int32 := 3
def SIGHASH_ANYONECANPAY : Int32 := 0x80

def getPrevoutHash (H : List UInt8 → uint256) (txTo : CTransaction) : uint256 :=
  H (txTo.vin.flatMap fun txin => serOutPoint txin.prevout)

def getSequenceHash (H : List UInt8 → uint256) (txTo : CTransaction) : uint256 :=
  H (txTo.vin.flatMap fun txin => serUInt32 txin.nSequence)

def getOutputWithoutSenderSig (output : CTxOut) : CTxOut :=
  { output with scriptPubKey := withoutSenderSig output.scriptPubKey }

/-- What `GetOutputsOpSenderHash` writes for one output. -/
def serOutputOpSender (txout : CTxOut) : List UInt8 :=
  if hasOpSender txout.scriptPubKey then serTxOut (getOutputWithoutSenderSig txout)
  else serTxOut txout

def getOutputsOpSenderHash (H : List UInt8 → uint256) (txTo : CTransaction) : uint256 :=
  H (txTo.vout.flatMap serOutputOpSender)

/-- The digests of the inputs `SignatureHashOutput` commits to: the first
input only under `SIGHASH_ANYONECANPAY` (`none` for a transaction without
inputs, where the source asserts), else all prevouts, and all sequences unless
the base type is `SIGHASH_SINGLE` or `SIGHASH_NONE`. -/
def inputsHashes (H : List UInt8 → uint256) (txTo : CTransaction) (nHashType : Int32) :
    Option (uint256 × uint256) :=
  if nHashType &&& SIGHASH_ANYONECANPAY ≠ 0 then
    txTo.vin.head?.map fun txin => (H (serOutPoint txin.prevout), H (serUInt32 txin.nSequence))
  else if nHashType &&& 0x1f ≠ SIGHASH_SINGLE ∧ nHashType &&& 0x1f ≠ SIGHASH_NONE then
    some (getPrevoutHash H txTo, getSequenceHash H txTo)
  else some (getPrevoutHash H txTo, uint256.zero)

def outputsHash (H : List UInt8 → uint256) (txTo : CTransaction) (nOut : Nat) (nHashType : Int32) :
    uint256 :=
  if nHashType &&& 0x1f ≠ SIGHASH_SINGLE ∧ nHashType &&& 0x1f ≠ SIGHASH_NONE then
    getOutputsOpSenderHash H txTo
  else if nHashType &&& 0x1f = SIGHASH_SINGLE then
    match txTo.vout[nOut]? with
    | some output => H (serTxOut (getOutputWithoutSenderSig output))
    | none => uint256.zero
  else uint256.zero

/-- The stream `SignatureHashOutput` hashes. -/
def sigHashPreimage (txTo : CTransaction) (hashPrevouts hashSequence : uint256) (output : CTxOut)
    (scriptCode : CScript) (amount : Int64) (hashOutputs : uint256) (nHashType : Int32) :
    List UInt8 :=
  serInt32 txTo.nVersion ++ hashPrevouts.data ++ hashSequence.data ++
    serTxOut (getOutputWithoutSenderSig output) ++ serScript scriptCode ++ serInt64 amount ++
    hashOutputs.data ++ serUInt32 txTo.nLockTime ++ serInt32 nHashType

/-- `SignatureHashOutput`; `none` where the source's assertions fail. -/
def signatureHashOutput (H : List UInt8 → uint256) (scriptCode : CScript) (txTo : CTransaction)
    (nOut : Nat) (nHashType : Int32) (amount : Int64) : Option uint256 := do
  let output ← txTo.vout[nOut]?
  let (hashPrevouts, hashSequence) ← inputsHashes H txTo nHashType
  pure (H (sigHashPreimage txTo hashPrevouts hashSequence output scriptCode amount
    (outputsHash H txTo nOut nHashType) nHashType))

/-- `UpdateOutput`: the serialized signature script goes into the OP_SENDER
signature slot; `none` where `UpdateSenderSig` fails and the output stays as
it was. -/
def updateOutput (output : CTxOut) (scriptSig : CScript) : Option CTxOut :=
  (updateSenderSig output.scriptPubKey (serScript scriptSig)).map fun scriptPubKey =>
    { output with scriptPubKey }

theorem find_replaceParam {findOp : opcodetype} (hop : OP_PUSHDATA4 < findOp) {s : CScript}
    {posBefore : Int} {a : valtype} (ha : a.length < 2 ^ 32) {r : CScript}
    (h : replaceParam s findOp posBefore a = some r) : find r findOp = find s findOp := by
  obtain ⟨pre, c, rest, -, hs, -, -, -, rfl⟩ := replaceParam_eq_some h
  rw [find_of_splitAt (hs.set_pushData hop ha _), find_of_splitAt hs]

theorem withoutSenderSig_updateSenderSig {s : CScript} {a : valtype} (ha : a.length < 2 ^ 32)
    {r : CScript} (h : updateSenderSig s a = some r) : withoutSenderSig r = withoutSenderSig s := by
  obtain ⟨-, -, -, -, -, -, r2, hr2, hs2⟩ := replaceParam_replaceParam (by decide) ha [] h
  rw [withoutSenderSig, withoutSenderSig, updateSenderSig, updateSenderSig, hr2, hs2]
  rfl

theorem hasOpSender_updateSenderSig {s : CScript} {a : valtype} (ha : a.length < 2 ^ 32)
    {r : CScript} (h : updateSenderSig s a = some r) : hasOpSender r = hasOpSender s := by
  rw [hasOpSender, hasOpSender, find_replaceParam (by decide) ha h]

theorem length_serScript {scriptSig : CScript} (h : scriptSig.length ≤ MAX_SIZE) :
    (serScript scriptSig).length < 2 ^ 32 := by
  unfold serScript writeCompactSize MAX_SIZE at *
  split_ifs <;> simp <;> omega

theorem updateOutput_digest_bytes {output output' : CTxOut} {scriptSig : CScript}
    (hsender : hasOpSender output.scriptPubKey = true) (hsig : scriptSig.length ≤ MAX_SIZE)
    (h : updateOutput output scriptSig = some output') :
    getOutputWithoutSenderSig output' = getOutputWithoutSenderSig output ∧
      serOutputOpSender output' = serOutputOpSender output := by
  obtain ⟨r, hr, rfl⟩ := Option.map_eq_some_iff.mp h
  have hwithout : getOutputWithoutSenderSig { output with scriptPubKey := r } =
      getOutputWithoutSenderSig output := by
    simp [getOutputWithoutSenderSig, withoutSenderSig_updateSenderSig (length_serScript hsig) hr]
  refine ⟨hwithout, ?_⟩
  have hsender' : hasOpSender r = true := by
    rw [hasOpSender_updateSenderSig (length_serScript hsig) hr, hsender]
  simp only [serOutputOpSender, hsender, hsender', if_true, hwithout]

theorem map_set_of_eq {α β : Type} (f : α → β) {l : List α} {i : Nat} {x a : α}
    (hx : l[i]? = some x) (ha : f a = f x) : (l.set i a).map f = l.map f := by
  obtain ⟨hi, rfl⟩ := List.getElem?_eq_some_iff.mp hx
  have hi' : i < (l.map f).length := by simpa using hi
  have hget : (l.map f)[i] = f l[i] := List.getElem_map ..
  rw [List.map_set, ha, ← hget, List.set_getElem_self]

theorem signatureHashOutput_vout_congr (H : List UInt8 → uint256) (scriptCode : CScript)
    (tx : CTransaction) {vout : List CTxOut}
    (hwithout : vout.map getOutputWithoutSenderSig = tx.vout.map getOutputWithoutSenderSig)
    (hsender : vout.map serOutputOpSender = tx.vout.map serOutputOpSender)
    (nOut : Nat) (nHashType : Int32) (amount : Int64) :
    signatureHashOutput H scriptCode { tx with vout } nOut nHashType amount =
      signatureHashOutput H scriptCode tx nOut nHashType amount := by
  have hout : (vout[nOut]?).map getOutputWithoutSenderSig =
      (tx.vout[nOut]?).map getOutputWithoutSenderSig := by
    rw [← List.getElem?_map, ← List.getElem?_map, hwithout]
  have hops : getOutputsOpSenderHash H { tx with vout } = getOutputsOpSenderHash H tx := by
    simp only [getOutputsOpSenderHash, List.flatMap_def, hsender]
  cases h1 : vout[nOut]? <;> cases h2 : tx.vout[nOut]? <;> rw [h1, h2] at hout
  · simp [signatureHashOutput, h1, h2]
  · cases hout
  · cases hout
  · simp only [Option.map_some, Option.some.injEq] at hout
    simp [signatureHashOutput, h1, h2, inputsHashes, outputsHash, sigHashPreimage, hout, hops,
      getPrevoutHash, getSequenceHash]

theorem updateOutput_sigHash {H : List UInt8 → uint256} {tx : CTransaction} {m : Nat}
    {out out' : CTxOut} {scriptSig : CScript} (hout : tx.vout[m]? = some out)
    (hsender : hasOpSender out.scriptPubKey = true) (hsig : scriptSig.length ≤ MAX_SIZE)
    (h : updateOutput out scriptSig = some out') :
    getOutputsOpSenderHash H { tx with vout := tx.vout.set m out' } = getOutputsOpSenderHash H tx ∧
      ∀ (scriptCode : CScript) (nOut : Nat) (nHashType : Int32) (amount : Int64),
        signatureHashOutput H scriptCode { tx with vout := tx.vout.set m out' } nOut nHashType
          amount = signatureHashOutput H scriptCode tx nOut nHashType amount := by
  obtain ⟨hwithout, hser⟩ := updateOutput_digest_bytes hsender hsig h
  have hmap := map_set_of_eq serOutputOpSender hout hser
  refine ⟨by simp only [getOutputsOpSenderHash, List.flatMap_def, hmap], ?_⟩
  intro scriptCode nOut nHashType amount
  exact signatureHashOutput_vout_congr H scriptCode tx
    (map_set_of_eq getOutputWithoutSenderSig hout hwithout) hmap nOut nHashType amount

/-- The OP_SENDER signature does not feed the digest it signs. Inserting a
signature where an operation stands before the slot succeeds and
`WithoutSenderSig` forgets it again; in general a replacement before a non-push
opcode can be redone with another value, read back, and changes only the one
operation; and signing an OP_SENDER output of a transaction with
`UpdateOutput` leaves `GetOutputsOpSenderHash` and every
`SignatureHashOutput` of the transaction as they were. -/
theorem senderSig_replacement_stable :
    (∀ (s : CScript) (a : valtype), (findParam s OP_SENDER 1).isSome → a.length < 2 ^ 32 →
      ∃ r, updateSenderSig s a = some r ∧ withoutSenderSig r = withoutSenderSig s) ∧
    (∀ (s : CScript) (op : opcodetype) (k : Int) (a b : valtype) (r1 : CScript),
      OP_PUSHDATA4 < op → a.length < 2 ^ 32 → replaceParam s op k a = some r1 →
      (∃ r2, replaceParam r1 op k b = some r2 ∧ replaceParam s op k b = some r2) ∧
      findParam r1 op k = some a ∧
      ∃ pre c rest, splitAtOp op (s.length + 1) s = some (pre, c, rest) ∧
        splitAtOp op (r1.length + 1) r1 =
          some (pre.set (pre.length - k.toNat) (pushData a), c, rest)) ∧
    (∀ (H : List UInt8 → uint256) (tx : CTransaction) (m : Nat) (out out' : CTxOut)
      (scriptSig : CScript), tx.vout[m]? = some out → hasOpSender out.scriptPubKey = true →
      scriptSig.length ≤ MAX_SIZE → updateOutput out scriptSig = some out' →
      getOutputsOpSenderHash H { tx with vout := tx.vout.set m out' } =
          getOutputsOpSenderHash H tx ∧
        ∀ (scriptCode : CScript) (nOut : Nat) (nHashType : Int32) (amount : Int64),
          signatureHashOutput H scriptCode { tx with vout := tx.vout.set m out' } nOut nHashType
            amount = signatureHashOutput H scriptCode tx nOut nHashType amount) := by
  refine ⟨?_, ?_, ?_⟩
  · intro s a hs ha
    obtain ⟨r, hr, hwithout, -⟩ := updateSenderSig_eq_some hs ha
    exact ⟨r, hr, hwithout⟩
  · intro s op k a b r1 hop ha h
    obtain ⟨pre, c, rest, hs, hr1, hfind, hr2⟩ := replaceParam_replaceParam hop ha b h
    exact ⟨hr2, hfind, pre, c, rest, hs, hr1⟩
  · intro H tx m out out' scriptSig hout hsender hsig h
    exact updateOutput_sigHash hout hsender hsig h

/-- A call output `OP_1 OP_2 OP_0 OP_SENDER` signed with the empty signature
script, whose serialization `[0x00]` is pushed as `0x01 0x00`, in a transaction
hashed by a digest that keeps the first 32 bytes. -/
theorem senderSig_replacement_stable_on_call :
    (∃ r, updateSenderSig [0x51, 0x52, 0x00, 0xc4] [0x00] = some r ∧
      withoutSenderSig r = withoutSenderSig [0x51, 0x52, 0x00, 0xc4]) ∧
    ((∃ r2, replaceParam [0x51, 0x52, 0x01, 0x00, 0xc4] OP_SENDER 1 [0xAA] = some r2 ∧
        replaceParam [0x51, 0x52, 0x00, 0xc4] OP_SENDER 1 [0xAA] = some r2) ∧
      findParam [0x51, 0x52, 0x01, 0x00, 0xc4] OP_SENDER 1 = some [0x00] ∧
      ∃ pre c rest, splitAtOp OP_SENDER 5 [0x51, 0x52, 0x00, 0xc4] = some (pre, c, rest) ∧
        splitAtOp OP_SENDER 6 [0x51, 0x52, 0x01, 0x00, 0xc4] =
          some (pre.set (pre.length - 1) (pushData [0x00]), c, rest)) ∧
    (getOutputsOpSenderHash (fun m => ⟨(m ++ List.replicate 32 0).take 32, by simp⟩)
        ⟨1, [], [⟨0, [0x51, 0x52, 0x01, 0x00, 0xc4]⟩], 0⟩ =
      getOutputsOpSenderHash (fun m => ⟨(m ++ List.replicate 32 0).take 32, by simp⟩)
        ⟨1, [], [⟨0, [0x51, 0x52, 0x00, 0xc4]⟩], 0⟩ ∧
      ∀ (scriptCode : CScript) (nOut : Nat) (nHashType : Int32) (amount : Int64),
        signatureHashOutput (fun m => ⟨(m ++ List.replicate 32 0).take 32, by simp⟩) scriptCode
            ⟨1, [], [⟨0, [0x51, 0x52, 0x01, 0x00, 0xc4]⟩], 0⟩ nOut nHashType amount =
          signatureHashOutput (fun m => ⟨(m ++ List.replicate 32 0).take 32, by simp⟩) scriptCode
            ⟨1, [], [⟨0, [0x51, 0x52, 0x00, 0xc4]⟩], 0⟩ nOut nHashType amount) :=
  ⟨senderSig_replacement_stable.1 _ _ (by decide) (by decide),
    senderSig_replacement_stable.2.1 _ _ 1 [0x00] [0xAA] _ (by decide) (by decide) (by decide),
    senderSig_replacement_stable.2.2 _ ⟨1, [], [⟨0, [0x51, 0x52, 0x00, 0xc4]⟩], 0⟩ 0
      ⟨0, [0x51, 0x52, 0x00, 0xc4]⟩ ⟨0, [0x51, 0x52, 0x01, 0x00, 0xc4]⟩ [] rfl (by decide)
      (by decide) (by decide)⟩

/-- Before a push opcode the replacement is not stable: the push of `0xBB`
written before `0x01` is itself an operation `0x01`, so after it the same
replacement finds `0x01` with only one operation before it and fails, and
`FindParam` fails too. -/
theorem replaceParam_before_push_opcode :
    replaceParam [0x51, 0x52, 0x01, 0xAA] 0x01 1 [0xBB] = some [0x51, 0x01, 0xBB, 0x01, 0xAA] ∧
      replaceParam [0x51, 0x01, 0xBB, 0x01, 0xAA] 0x01 1 [0xCC] = none ∧
      replaceParam [0x51, 0x52, 0x01, 0xAA] 0x01 1 [0xCC] = some [0x51, 0x01, 0xCC, 0x01, 0xAA] ∧
      findParam [0x51, 0x01, 0xBB, 0x01, 0xAA] 0x01 1 = none := by
  decide

end YuPost.Script
