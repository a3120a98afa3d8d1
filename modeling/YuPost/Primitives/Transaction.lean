import YuPost.Lib.Codec
import YuPost.Lib.VarInt
import YuPost.Script.Script

/-! Transactions of `primitives/transaction.h` and the parts of
`serialize.h` that write and read them: `WriteCompactSize` and
`ReadCompactSize`, a `CScript` as a length-prefixed byte string, and the
fixed-width fields. A reader's exceptions (`non-canonical ReadCompactSize()`,
`size too large`, the end of the data) are `none`.

The witness of an input is left out, since no function modelled here reads
it. -/

namespace YuPost.Primitives

open YuPost.Lib YuPost.Script

def MAX_SIZE : Nat := 0x10000000

def writeCompactSize (nSize : Nat) : List UInt8 :=
  if nSize < 253 then [UInt8.ofNat nSize]
  else if nSize ≤ 0xffff then 253 :: writeLE 2 nSize
  else if nSize ≤ 0xffffffff then 254 :: writeLE 4 nSize
  else 255 :: writeLE 8 nSize

/-- `ReadCompactSize`: the header byte, the wider number it announces, the
canonical-encoding checks and the `MAX_SIZE` bound. -/
def readCompactSize : List UInt8 → Option (Nat × List UInt8)
  | [] => none
  | chSize :: s =>
    let read : Option (Nat × List UInt8) :=
      if chSize < 253 then some (chSize.toNat, s)
      else if chSize = 253 then
        (readFixed 2 s).bind fun (n, s) => if n < 253 then none else some (n, s)
      else if chSize = 254 then
        (readFixed 4 s).bind fun (n, s) => if n < 0x10000 then none else some (n, s)
      else (readFixed 8 s).bind fun (n, s) => if n < 0x100000000 then none else some (n, s)
    read.bind fun (nSizeRet, s) => if nSizeRet > MAX_SIZE then none else some (nSizeRet, s)

theorem roundTrip_compactSize : RoundTrip (· ≤ MAX_SIZE) writeCompactSize readCompactSize := by
  intro n rest hn
  unfold MAX_SIZE at hn
  unfold writeCompactSize
  split_ifs with h1 h2
  · have hb : (UInt8.ofNat n).toNat = n := UInt8.toNat_ofNat_of_lt' (by simp [UInt8.size]; omega)
    simp [readCompactSize, UInt8.lt_iff_toNat_lt, hb, h1, MAX_SIZE]
    omega
  · simp [readCompactSize, (roundTrip_writeLE 2) n rest (by omega), MAX_SIZE, h1,
      show ¬268435456 < n by omega]
  · simp [readCompactSize, (roundTrip_writeLE 4) n rest (by omega), MAX_SIZE,
      show ¬n < 65536 by omega, show ¬268435456 < n by omega]
  · omega

/-- `GetSizeOfCompactSize`: the header byte and the width it announces. -/
def getSizeOfCompactSize (nSize : Nat) : Nat :=
  if nSize < 253 then 1
  else if nSize ≤ 0xffff then 1 + 2
  else if nSize ≤ 0xffffffff then 1 + 4
  else 1 + 8

theorem length_writeCompactSize (nSize : Nat) : (writeCompactSize nSize).length = getSizeOfCompactSize nSize := by
  unfold writeCompactSize getSizeOfCompactSize
  split_ifs <;> simp

/-- Every compact size `readCompactSize` accepts is canonical: the bytes it
takes are those `writeCompactSize` writes for the number. The `255` header
never passes the `MAX_SIZE` bound. -/
theorem readCompactSize_canonical {s rest : List UInt8} {n : Nat} (h : readCompactSize s = some (n, rest)) :
    s = writeCompactSize n ++ rest := by
  match s with
  | [] => simp [readCompactSize] at h
  | chSize :: s =>
    simp only [readCompactSize] at h
    obtain ⟨⟨m, s'⟩, hread, hmax⟩ := Option.bind_eq_some_iff.mp h
    split_ifs at hmax with hbig
    obtain ⟨rfl, rfl⟩ := Prod.mk.inj (Option.some.inj hmax)
    unfold MAX_SIZE at hbig
    split_ifs at hread with hsingle h253 h254
    · -- a single byte
      obtain ⟨rfl, rfl⟩ := Prod.mk.inj (Option.some.inj hread)
      have hlt : chSize.toNat < 253 := by simpa [UInt8.lt_iff_toNat_lt] using hsingle
      simp [writeCompactSize, hlt]
    · obtain ⟨⟨x, s''⟩, hfix, hx⟩ := Option.bind_eq_some_iff.mp hread
      split_ifs at hx with hsmall
      obtain ⟨rfl, rfl⟩ := Prod.mk.inj (Option.some.inj hx)
      obtain ⟨hxlt, rfl⟩ := readFixed_canonical hfix
      simp [writeCompactSize, h253, hsmall, show x ≤ 0xffff by omega]
    · obtain ⟨⟨x, s''⟩, hfix, hx⟩ := Option.bind_eq_some_iff.mp hread
      split_ifs at hx with hsmall
      obtain ⟨rfl, rfl⟩ := Prod.mk.inj (Option.some.inj hx)
      obtain ⟨hxlt, rfl⟩ := readFixed_canonical hfix
      simp [writeCompactSize, h254, show ¬x < 253 by omega, show ¬x ≤ 0xffff by omega,
        show x ≤ 0xffffffff by omega]
    · obtain ⟨⟨x, s''⟩, hfix, hx⟩ := Option.bind_eq_some_iff.mp hread
      split_ifs at hx with hsmall
      obtain ⟨rfl, rfl⟩ := Prod.mk.inj (Option.some.inj hx)
      omega

/-- The integer encodings of `serialize.h` are one-to-one onto their canonical
forms: a compact size up to `MAX_SIZE` and a var int of any unsigned type are
read back from what was written, over the bytes the size functions count;
every value read was read from its own encoding, in range; and `ReadVarInt`
fails only with `size too large` or where the stream ends. -/
theorem integerEncodings_canonical :
    (∀ n rest, n ≤ MAX_SIZE → readCompactSize (writeCompactSize n ++ rest) = some (n, rest) ∧
      (writeCompactSize n).length = getSizeOfCompactSize n) ∧
    (∀ s n rest, readCompactSize s = some (n, rest) → s = writeCompactSize n ++ rest) ∧
    (∀ bits n rest, n < 2 ^ bits → readVarIntE bits (writeVarInt n ++ rest) = .ok (n, rest) ∧
      (writeVarInt n).length = getSizeOfVarInt n) ∧
    (∀ bits, 8 ≤ bits → ∀ s n rest, readVarIntE bits s = .ok (n, rest) →
      n < 2 ^ bits ∧ s = writeVarInt n ++ rest) ∧
    (∀ bits s e, readVarIntE bits s = .error e → e = .endOfData ∨ e = .failure "ReadVarInt(): size too large") :=
  ⟨fun n rest hn => ⟨roundTrip_compactSize n rest hn, length_writeCompactSize n⟩,
    fun _ _ _ h => readCompactSize_canonical h,
    fun bits n rest hn => ⟨readVarIntE_of_readVarInt (roundTrip_writeVarInt bits n rest hn), length_writeVarInt n⟩,
    fun _ hbits _ _ _ h => readVarInt_canonical (by omega) (readVarInt_of_readVarIntE h),
    fun bits s e h => readVarIntLoopE_failure _ s 0 e h⟩

theorem integerEncodings_canonical_at_300 :
    300 ≤ MAX_SIZE ∧ readCompactSize (writeCompactSize 300 ++ [7]) = some (300, [7]) ∧
      (writeCompactSize 300).length = getSizeOfCompactSize 300 :=
  ⟨by decide, integerEncodings_canonical.1 300 [7] (by decide)⟩

/-- A var int cut short before its last byte fails where the stream ends, not
with `size too large`. -/
theorem readVarIntE_truncated : readVarIntE 64 [0x80] = .error .endOfData := rfl

/-- A `CScript` (or a `std::vector<unsigned char>`) on a stream: its size as a
compact size, then its bytes. -/
def serScript (script : CScript) : List UInt8 :=
  writeCompactSize script.length ++ script

/-- `Unserialize` of a `prevector<unsigned char>`: the size, then that many bytes. -/
def readScript (s : List UInt8) : Option (CScript × List UInt8) :=
  (readCompactSize s).bind fun (nSize, s) =>
    if s.length < nSize then none else some (s.take nSize, s.drop nSize)

theorem roundTrip_script : RoundTrip (·.length ≤ MAX_SIZE) serScript readScript := by
  intro script rest hs
  simp [serScript, readScript, List.append_assoc, roundTrip_compactSize _ _ hs]

@[simp] theorem length_serScript_pos (script : CScript) : 0 < (serScript script).length := by
  unfold serScript writeCompactSize
  split_ifs <;> simp

/-- `uint256`: thirty-two bytes, as they are serialized. -/
structure uint256 where
  data : List UInt8
  length_data : data.length = 32
deriving DecidableEq

/-- A default-constructed `uint256`. -/
def uint256.zero : uint256 := ⟨List.replicate 32 0, List.length_replicate⟩

structure COutPoint where
  hash : uint256
  n : UInt32
deriving DecidableEq

structure CTxIn where
  prevout : COutPoint
  scriptSig : CScript
  nSequence : UInt32
deriving DecidableEq

structure CTxOut where
  nValue : Int64
  scriptPubKey : CScript
deriving DecidableEq

structure CTransaction where
  nVersion : Int32
  vin : List CTxIn
  vout : List CTxOut
  nLockTime : UInt32
deriving DecidableEq

def serUInt32 (x : UInt32) : List UInt8 := writeLE 4 x.toNat

def serInt32 (x : Int32) : List UInt8 := writeLE 4 x.toBitVec.toNat

def serInt64 (x : Int64) : List UInt8 := writeLE 8 x.toBitVec.toNat

def serOutPoint (prevout : COutPoint) : List UInt8 :=
  prevout.hash.data ++ serUInt32 prevout.n

def serTxOut (txout : CTxOut) : List UInt8 :=
  serInt64 txout.nValue ++ serScript txout.scriptPubKey

@[simp] theorem length_serUInt32 (x : UInt32) : (serUInt32 x).length = 4 := by simp [serUInt32]

@[simp] theorem length_serInt32 (x : Int32) : (serInt32 x).length = 4 := by simp [serInt32]

@[simp] theorem length_serInt64 (x : Int64) : (serInt64 x).length = 8 := by simp [serInt64]

@[simp] theorem length_serOutPoint (prevout : COutPoint) : (serOutPoint prevout).length = 36 := by
  simp [serOutPoint, prevout.hash.length_data]

theorem serUInt32_injective {x y : UInt32} (h : serUInt32 x = serUInt32 y) : x = y :=
  UInt32.toNat_inj.mp (writeLE_injective x.toNat_lt y.toNat_lt h)

theorem serInt32_injective {x y : Int32} (h : serInt32 x = serInt32 y) : x = y :=
  Int32.toBitVec.inj (BitVec.eq_of_toNat_eq (writeLE_injective x.toBitVec.isLt y.toBitVec.isLt h))

theorem serInt64_injective {x y : Int64} (h : serInt64 x = serInt64 y) : x = y :=
  Int64.toBitVec.inj (BitVec.eq_of_toNat_eq (writeLE_injective x.toBitVec.isLt y.toBitVec.isLt h))

theorem toNat_toBitVec_of_nonneg {x : Int64} (h : 0 ≤ x.toInt) : (x.toBitVec.toNat : Int) = x.toInt := by
  have hint := BitVec.toInt_eq_toNat_cond x.toBitVec
  rw [Int64.toInt_toBitVec] at hint
  have hlt := x.toBitVec.isLt
  split_ifs at hint <;> omega

theorem serOutPoint_injective {p q : COutPoint} (h : serOutPoint p = serOutPoint q) : p = q := by
  obtain ⟨hhash, hn⟩ := List.append_inj h (by rw [p.hash.length_data, q.hash.length_data])
  obtain ⟨⟨d, hd⟩, n⟩ := p
  obtain ⟨⟨d', hd'⟩, n'⟩ := q
  cases hhash
  cases serUInt32_injective hn
  rfl

theorem serTxOut_append_inj {o o' : CTxOut} (ho : o.scriptPubKey.length ≤ MAX_SIZE)
    (ho' : o'.scriptPubKey.length ≤ MAX_SIZE) {t t' : List UInt8}
    (h : serTxOut o ++ t = serTxOut o' ++ t') : o = o' ∧ t = t' := by
  simp only [serTxOut, List.append_assoc] at h
  obtain ⟨hvalue, hrest⟩ := List.append_inj h (by simp)
  obtain ⟨hscript, ht⟩ := roundTrip_script.eq_of_append ho ho' hrest
  cases o
  cases o'
  simp only [CTxOut.mk.injEq]
  exact ⟨⟨serInt64_injective hvalue, hscript⟩, ht⟩

def CTransaction.hasOpSender (tx : CTransaction) : Bool :=
  tx.vout.any fun txout => YuPost.Script.hasOpSender txout.scriptPubKey

def COIN : Int := 100000000

def MAX_MONEY : Int := 333000000 * COIN + 25 * (COIN / 100)

def MoneyRange (nValue : Int) : Bool := 0 ≤ nValue && nValue ≤ MAX_MONEY

def uint256.isNull (hash : uint256) : Bool := hash.data.all (· == 0)

def COutPoint.isNull (prevout : COutPoint) : Bool := prevout.hash.isNull && prevout.n == 0xffffffff

def CTxOut.isEmpty (txout : CTxOut) : Bool := txout.nValue == 0 && txout.scriptPubKey.isEmpty

def CTransaction.isCoinBase (tx : CTransaction) : Bool :=
  match tx.vin with
  | [txin] => txin.prevout.isNull && 1 ≤ tx.vout.length
  | _ => false

/-- `IsCoinStake`: the first input spends a coin and the first of at least two
outputs is empty. -/
def CTransaction.isCoinStake (tx : CTransaction) : Bool :=
  match tx.vin, tx.vout with
  | txin :: _, first :: _ :: _ => !txin.prevout.isNull && first.isEmpty
  | _, _ => false

/-- `GetValueOut`; `none` where it throws because an output or a partial sum
leaves `MoneyRange`. -/
def CTransaction.getValueOut (tx : CTransaction) : Option Int :=
  tx.vout.foldlM (fun nValueOut txout =>
    if MoneyRange txout.nValue.toInt && MoneyRange (nValueOut + txout.nValue.toInt) then
      some (nValueOut + txout.nValue.toInt)
    else none) 0

/-- The sum of the values of some outputs. -/
def totalValue (outs : List CTxOut) : Int := (outs.map fun txout => txout.nValue.toInt).sum

@[simp] theorem totalValue_nil : totalValue [] = 0 := rfl

@[simp] theorem totalValue_cons (txout : CTxOut) (outs : List CTxOut) :
    totalValue (txout :: outs) = txout.nValue.toInt + totalValue outs := by
  simp [totalValue]

@[simp] theorem totalValue_append (outs outs' : List CTxOut) :
    totalValue (outs ++ outs') = totalValue outs + totalValue outs' := by
  simp [totalValue]

theorem totalValue_flatten (outss : List (List CTxOut)) :
    totalValue outss.flatten = (outss.map totalValue).sum := by
  unfold totalValue
  rw [List.map_flatten, List.sum_flatten, List.map_map]
  rfl

/-- A block as `ConnectBlock` and `CheckReward` read it. Whether it carries a
proof of delegation is decided by its signature, which is not parsed here. -/
structure CBlock where
  prevoutStake : COutPoint
  hasProofOfDelegation : Bool
  vtx : List CTransaction

def CBlock.isProofOfStake (block : CBlock) : Bool := !block.prevoutStake.isNull

end YuPost.Primitives
