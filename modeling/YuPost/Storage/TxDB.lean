import YuPost.Lib.OrderedStore
import YuPost.Primitives.Transaction

/-! The stake and delegate indexes of the block-tree database (`txdb.cpp`),
which MPoS reads to pay the stakers of past blocks. The database is LevelDB:
an ordered store of byte-string keys under the bytewise comparator, read
through a cursor. `WriteStakeIndex` and `WriteDelegateIndex` key an entry by a
prefix character and the height as `std::pair<char, unsigned int>` serializes
it, little-endian; the readers and the erasers seek to that key and decode the
key they find as a `std::pair<char, CHeightTxIndexKey>`, whose height is
big-endian and followed by an address.

The address of a decoded key is `dev::h160` of the bytes read, from the
Ethereum library (outside this repository): the parameter `h160`. -/

namespace YuPost.Storage

open YuPost.Lib YuPost.Primitives

/-- `uint160`: twenty bytes. -/
structure uint160 where
  data : List UInt8
  length_data : data.length = 20
deriving DecidableEq

/-- `uint160()`. -/
def uint160.zero : uint160 := ⟨List.replicate 20 0, by simp⟩

def DB_DELEGATEINDEX : UInt8 := 0x64
def DB_HEIGHTINDEX : UInt8 := 0x68
def DB_STAKEINDEX : UInt8 := 0x73

/-- The key `std::make_pair(tag, height)`. -/
def heightKey (tag : UInt8) (height : UInt32) : List UInt8 := tag :: serUInt32 height

/-- `CHeightTxIndexKey`: a height and a `dev::h160` address. -/
structure CHeightTxIndexKey where
  height : UInt32
  address : List UInt8

/-- `ser_writedata32be`. -/
def serUInt32BE (x : UInt32) : List UInt8 := (serUInt32 x).reverse

/-- `ser_readdata32be` of four bytes. -/
def readUInt32BE (bytes : List UInt8) : UInt32 := (readLE bytes.reverse).toUInt32

section Cursor

variable (h160 : List UInt8 → List UInt8)

/-- `CDBIterator::GetKey` into a `std::pair<char, CHeightTxIndexKey>`: whether
the key decodes, and the pair as far as it was read before a failure; a fresh
pair holds the null character, height zero and the null address. -/
def getKey : List UInt8 → Bool × UInt8 × CHeightTxIndexKey
  | [] => (false, 0, ⟨0, List.replicate 20 0⟩)
  | c :: b0 :: b1 :: b2 :: b3 :: rest =>
    let height := readUInt32BE [b0, b1, b2, b3]
    -- the address is a byte vector, its length in front
    match readCompactSize rest with
    | some (n, bytes) =>
      if n ≤ bytes.length then (true, c, ⟨height, h160 (bytes.take n)⟩)
      else (false, c, ⟨height, List.replicate 20 0⟩)
    | none => (false, c, ⟨height, List.replicate 20 0⟩)
  | c :: _ => (false, c, ⟨0, List.replicate 20 0⟩)

/-- A decoded key serialized again, as `CDBBatch::Erase` writes it. -/
def serKey (key : UInt8 × CHeightTxIndexKey) : List UInt8 :=
  key.1 :: serUInt32BE key.2.height ++ writeCompactSize key.2.address.length ++ key.2.address

/-- `CDBIterator::GetValue` into a `uint160`: the first twenty bytes, or the
address as it was where the value is shorter. -/
def getValueUint160 (value : List UInt8) (address : uint160) : uint160 :=
  if h : 20 ≤ value.length then ⟨value.take 20, by simp; omega⟩ else address

/-- The serialization of a `DelegateEntry`: the address, then the fee. -/
def serDelegateEntry (address : uint160) (fee : UInt8) : List UInt8 := address.data ++ [fee]

/-- `CDBIterator::GetValue` into a fresh `DelegateEntry`: what it reads of the
address and the fee. -/
def getValueDelegateEntry (value : List UInt8) : uint160 × UInt8 :=
  if h : 20 ≤ value.length then (⟨value.take 20, by simp; omega⟩, value.getD 20 0) else (uint160.zero, 0)

abbrev CBlockTreeDB := OrderedStore (List UInt8) (List UInt8)

/-- The reader shared by `ReadStakeIndex` and `ReadDelegateIndex`: the value
under the first key at or after the key of the height, if the first byte of
that key is the prefix. The height is never compared. -/
def readIndex (db : CBlockTreeDB) (tag : UInt8) (height : UInt32) : Option (List UInt8) :=
  match db.seek (heightKey tag height) with
  | [] => none
  -- `GetKey` fails on these five-byte keys, after it has read the prefix
  | (key, value) :: _ => if (getKey h160 key).2.1 = tag then some value else none

/-- The loop of the erasers: the keys to erase, from the cursor on, while the
key decodes as a height-index key of the height. -/
def eraseLoop (height : UInt32) : List (List UInt8 × List UInt8) → List (List UInt8)
  | [] => []
  | (key, _) :: rest =>
    if (getKey h160 key).1 && (getKey h160 key).2.1 == DB_HEIGHTINDEX &&
        (getKey h160 key).2.2.height == height then
      serKey (getKey h160 key).2 :: eraseLoop height rest
    else []

/-- The eraser shared by `EraseStakeIndex` and `EraseDelegateIndex`: the
batch of the loop from the key of the height, written at the end. -/
def eraseIndex (db : CBlockTreeDB) (tag : UInt8) (height : UInt32) : CBlockTreeDB :=
  (eraseLoop h160 height (db.seek (heightKey tag height))).foldl OrderedStore.erase db

def writeStakeIndex (db : CBlockTreeDB) (height : UInt32) (address : uint160) : CBlockTreeDB :=
  db.write (heightKey DB_STAKEINDEX height) address.data

def readStakeIndex (db : CBlockTreeDB) (height : UInt32) (address : uint160) : Bool × uint160 :=
  match readIndex h160 db DB_STAKEINDEX height with
  | some value => (true, getValueUint160 value address)
  | none => (false, address)

def eraseStakeIndex (db : CBlockTreeDB) (height : UInt32) : CBlockTreeDB :=
  eraseIndex h160 db DB_STAKEINDEX height

def writeDelegateIndex (db : CBlockTreeDB) (height : UInt32) (address : uint160) (fee : UInt8) :
    CBlockTreeDB :=
  db.write (heightKey DB_DELEGATEINDEX height) (serDelegateEntry address fee)

def readDelegateIndex (db : CBlockTreeDB) (height : UInt32) (address : uint160) (fee : UInt8) :
    Bool × uint160 × UInt8 :=
  match readIndex h160 db DB_DELEGATEINDEX height with
  | some value => (true, (getValueDelegateEntry value).1, (getValueDelegateEntry value).2)
  | none => (false, address, fee)

def eraseDelegateIndex (db : CBlockTreeDB) (height : UInt32) : CBlockTreeDB :=
  eraseIndex h160 db DB_DELEGATEINDEX height

theorem getKey_cons_fst (c : UInt8) (rest : List UInt8) : (getKey h160 (c :: rest)).2.1 = c := by
  rcases rest with _ | ⟨b0, _ | ⟨b1, _ | ⟨b2, _ | ⟨b3, rest⟩⟩⟩⟩
  all_goals simp only [getKey]
  split <;> (try split_ifs) <;> rfl

theorem head_ge_of_heightKey_le {tag : UInt8} {height : UInt32} {key : List UInt8}
    (h : heightKey tag height ≤ key) : ∃ c rest, key = c :: rest ∧ tag ≤ c := by
  cases key with
  | nil => simp [heightKey] at h
  | cons c rest => exact ⟨c, rest, rfl, List.left_le_left_of_cons_le_cons h⟩

theorem head_of_mem_eraseLoop {height : UInt32} {l : List (List UInt8 × List UInt8)} {key : List UInt8}
    (h : key ∈ eraseLoop h160 height l) : key.head? = some DB_HEIGHTINDEX := by
  induction l with
  | nil => simp [eraseLoop] at h
  | cons hd tl ih =>
    unfold eraseLoop at h
    split_ifs at h with hkey
    · rcases List.mem_cons.mp h with rfl | hmem
      · simp only [Bool.and_eq_true, beq_iff_eq] at hkey
        simp [serKey, hkey.1.2]
      · exact ih hmem
    · simp at h

theorem eraseIndex_of_lt {tag : UInt8} (htag : DB_HEIGHTINDEX < tag) (db : CBlockTreeDB) (height : UInt32) :
    eraseIndex h160 db tag height = db := by
  unfold eraseIndex
  cases hseek : db.seek (heightKey tag height) with
  | nil => rfl
  | cons e rest =>
    have hle := OrderedStore.le_of_mem_seek (hseek ▸ List.mem_cons_self : e ∈ db.seek (heightKey tag height))
    obtain ⟨c, keyRest, hkey, hc⟩ := head_ge_of_heightKey_le hle
    have hfirst : (getKey h160 e.1).2.1 ≠ DB_HEIGHTINDEX := by
      rw [hkey, getKey_cons_fst]
      exact fun h => absurd (h ▸ hc) (UInt8.not_le.mpr htag)
    obtain ⟨key, value⟩ := e
    simp only at hfirst
    rw [eraseLoop, if_neg (by simp [hfirst])]
    rfl

theorem get?_eraseIndex (db : CBlockTreeDB) (tag : UInt8) (height : UInt32) {key : List UInt8}
    (hkey : key.head? ≠ some DB_HEIGHTINDEX) : (eraseIndex h160 db tag height).get? key = db.get? key :=
  OrderedStore.get?_foldl_erase db fun h => hkey (head_of_mem_eraseLoop h160 h)

theorem readIndex_of_get? {db : CBlockTreeDB} {tag : UInt8} {height : UInt32} {value : List UInt8}
    (h : db.get? (heightKey tag height) = some value) : readIndex h160 db tag height = some value := by
  obtain ⟨rest, hseek⟩ := OrderedStore.seek_of_get? h
  rw [readIndex, hseek]
  simp only [heightKey, getKey_cons_fst, if_true]

theorem getKey_heightKey (tag : UInt8) (height : UInt32) : (getKey h160 (heightKey tag height)).1 = false := by
  simp only [heightKey, serUInt32, writeLE]
  rfl

theorem eraseIndex_of_seek_heightKey {db : CBlockTreeDB} {tag tag' : UInt8} {height height' : UInt32}
    {value : List UInt8} {rest : List (List UInt8 × List UInt8)}
    (h : db.seek (heightKey tag height) = (heightKey tag' height', value) :: rest) :
    eraseIndex h160 db tag height = db := by
  rw [eraseIndex, h, eraseLoop, if_neg (by simp [getKey_heightKey])]
  rfl

theorem readIndex_congr (h160' : List UInt8 → List UInt8) (db : CBlockTreeDB) (tag : UInt8)
    (height : UInt32) : readIndex h160 db tag height = readIndex h160' db tag height := by
  unfold readIndex
  cases hseek : db.seek (heightKey tag height) with
  | nil => rfl
  | cons e rest =>
    have hle := OrderedStore.le_of_mem_seek (hseek ▸ List.mem_cons_self : e ∈ db.seek (heightKey tag height))
    obtain ⟨c, keyRest, hkey, -⟩ := head_ge_of_heightKey_le hle
    obtain ⟨key, value⟩ := e
    simp only at hkey
    simp only [hkey, getKey_cons_fst]

theorem readStakeIndex_congr (h160' : List UInt8 → List UInt8) (db : CBlockTreeDB) (height : UInt32)
    (address : uint160) : readStakeIndex h160 db height address = readStakeIndex h160' db height address := by
  unfold readStakeIndex
  rw [readIndex_congr h160 h160']

theorem readDelegateIndex_congr (h160' : List UInt8 → List UInt8) (db : CBlockTreeDB) (height : UInt32)
    (address : uint160) (fee : UInt8) :
    readDelegateIndex h160 db height address fee = readDelegateIndex h160' db height address fee := by
  unfold readDelegateIndex
  rw [readIndex_congr h160 h160']

theorem getValueUint160_data (address address' : uint160) : getValueUint160 address.data address' = address := by
  obtain ⟨data, hlen⟩ := address
  unfold getValueUint160
  rw [dif_pos (by simp only; omega)]
  simp only [uint160.mk.injEq]
  exact List.take_of_length_le (by omega)

theorem getValueDelegateEntry_serDelegateEntry (address : uint160) (fee : UInt8) :
    getValueDelegateEntry (serDelegateEntry address fee) = (address, fee) := by
  obtain ⟨data, hlen⟩ := address
  unfold getValueDelegateEntry serDelegateEntry
  rw [dif_pos (by simp [hlen])]
  have htake : (data ++ [fee]).take 20 = data := by
    rw [List.take_append_of_le_length (by omega), List.take_of_length_le (by omega)]
  have hfee : (data ++ [fee]).getD 20 0 = fee := by
    rw [List.getD_eq_getElem?_getD, List.getElem?_append_right (by omega)]
    simp [hlen]
  simp only [htake, hfee]

theorem head?_heightKey (tag : UInt8) (height : UInt32) : (heightKey tag height).head? = some tag := rfl

/-- The calls on the block-tree database that touch the indexes, and writes
under other keys. -/
inductive IndexOp where
  | writeStake (height : UInt32) (address : uint160)
  | eraseStake (height : UInt32)
  | writeDelegate (height : UInt32) (address : uint160) (fee : UInt8)
  | eraseDelegate (height : UInt32)
  | writeOther (key value : List UInt8)

def IndexOp.apply (db : CBlockTreeDB) : IndexOp → CBlockTreeDB
  | .writeStake height address => writeStakeIndex db height address
  | .eraseStake height => eraseStakeIndex h160 db height
  | .writeDelegate height address fee => writeDelegateIndex db height address fee
  | .eraseDelegate height => eraseDelegateIndex h160 db height
  | .writeOther key value => db.write key value

/-- The entry a call writes, if it writes one. -/
def IndexOp.written : IndexOp → Option (List UInt8 × List UInt8)
  | .writeStake height address => some (heightKey DB_STAKEINDEX height, address.data)
  | .writeDelegate height address fee => some (heightKey DB_DELEGATEINDEX height, serDelegateEntry address fee)
  | .writeOther key value => some (key, value)
  | _ => none

def runIndexOps (db : CBlockTreeDB) (ops : List IndexOp) : CBlockTreeDB := ops.foldl (IndexOp.apply h160) db

/-- The last value written under a key, over a run. -/
def lastWriteTo (key : List UInt8) (last : Option (List UInt8)) (op : IndexOp) : Option (List UInt8) :=
  match op.written with
  | some (key', value) => if key = key' then some value else last
  | none => last

theorem get?_apply (db : CBlockTreeDB) (op : IndexOp) {key : List UInt8}
    (hkey : key.head? ≠ some DB_HEIGHTINDEX) :
    (op.apply h160 db).get? key = lastWriteTo key (db.get? key) op := by
  cases op with
  | writeStake height address =>
    simp [IndexOp.apply, writeStakeIndex, lastWriteTo, IndexOp.written]
  | eraseStake height =>
    rw [IndexOp.apply, eraseStakeIndex, eraseIndex_of_lt h160 (by decide)]
    rfl
  | writeDelegate height address fee =>
    simp [IndexOp.apply, writeDelegateIndex, lastWriteTo, IndexOp.written]
  | eraseDelegate height =>
    rw [IndexOp.apply, eraseDelegateIndex, get?_eraseIndex h160 _ _ _ hkey]
    rfl
  | writeOther key' value =>
    simp [IndexOp.apply, lastWriteTo, IndexOp.written]

theorem get?_runIndexOps (db : CBlockTreeDB) (ops : List IndexOp) {key : List UInt8}
    (hkey : key.head? ≠ some DB_HEIGHTINDEX) :
    (runIndexOps h160 db ops).get? key = ops.foldl (lastWriteTo key) (db.get? key) := by
  induction ops generalizing db with
  | nil => rfl
  | cons op ops ih =>
    rw [runIndexOps, List.foldl_cons, ← runIndexOps, ih, get?_apply h160 _ _ hkey, List.foldl_cons]

theorem foldl_lastWriteTo (key : List UInt8) (ops : List IndexOp) (last : Option (List UInt8)) :
    ops.foldl (lastWriteTo key) last = (ops.foldl (lastWriteTo key) none).or last := by
  induction ops generalizing last with
  | nil => rfl
  | cons op ops ih =>
    rw [List.foldl_cons, List.foldl_cons, ih, ih (lastWriteTo key none op), Option.or_assoc]
    congr 1
    unfold lastWriteTo
    split
    · split_ifs <;> rfl
    · rfl

theorem readIndex_runIndexOps (db : CBlockTreeDB) (ops : List IndexOp) {tag : UInt8}
    (htag : tag ≠ DB_HEIGHTINDEX) {height : UInt32} {value : List UInt8}
    (hlast : ops.foldl (lastWriteTo (heightKey tag height)) none = some value) :
    readIndex h160 (runIndexOps h160 db ops) tag height = some value := by
  have hget := @get?_runIndexOps h160 db ops (heightKey tag height)
    (by rw [head?_heightKey]; exact fun h => htag (Option.some_inj.mp h))
  rw [foldl_lastWriteTo, hlast, Option.some_or] at hget
  exact readIndex_of_get? h160 hget

/-- What the indexes do keep: after any run of index calls, a stake read at a
height that was written returns the address written there last, and a
delegate read the address and fee written there last, whatever erases came
after. -/
theorem index_reads_return_last_write (db : CBlockTreeDB) (ops : List IndexOp) (height : UInt32) :
    (∀ address address' : uint160,
      ops.foldl (lastWriteTo (heightKey DB_STAKEINDEX height)) none = some address.data →
      readStakeIndex h160 (runIndexOps h160 db ops) height address' = (true, address)) ∧
    (∀ (address address' : uint160) (fee fee' : UInt8),
      ops.foldl (lastWriteTo (heightKey DB_DELEGATEINDEX height)) none = some (serDelegateEntry address fee) →
      readDelegateIndex h160 (runIndexOps h160 db ops) height address' fee' = (true, address, fee)) := by
  refine ⟨fun address address' hlast => ?_, fun address address' fee fee' hlast => ?_⟩
  · rw [readStakeIndex, readIndex_runIndexOps h160 db ops (by decide) hlast]
    dsimp only
    rw [getValueUint160_data]
  · rw [readDelegateIndex, readIndex_runIndexOps h160 db ops (by decide) hlast]
    dsimp only
    rw [getValueDelegateEntry_serDelegateEntry]

theorem index_reads_return_last_write_of_erased_stake :
    let a : uint160 := ⟨List.replicate 20 0xaa, by simp⟩
    let ops := [IndexOp.writeStake 5 a, .eraseStake 5, .writeDelegate 7 a 3, .eraseDelegate 7]
    ops.foldl (lastWriteTo (heightKey DB_STAKEINDEX 5)) none = some a.data ∧
      readStakeIndex id (runIndexOps id OrderedStore.empty ops) 5 uint160.zero = (true, a) ∧
      ops.foldl (lastWriteTo (heightKey DB_DELEGATEINDEX 7)) none = some (serDelegateEntry a 3) ∧
      readDelegateIndex id (runIndexOps id OrderedStore.empty ops) 7 uint160.zero 0 = (true, a, 3) := by
  intro a ops
  have hstake : ops.foldl (lastWriteTo (heightKey DB_STAKEINDEX 5)) none = some a.data := by decide
  have hdelegate : ops.foldl (lastWriteTo (heightKey DB_DELEGATEINDEX 7)) none = some (serDelegateEntry a 3) := by
    decide
  exact ⟨hstake, (index_reads_return_last_write id OrderedStore.empty ops 5).1 a uint160.zero hstake,
    hdelegate, (index_reads_return_last_write id OrderedStore.empty ops 7).2 a uint160.zero 3 0 hdelegate⟩

end Cursor

/-- The stake index as MPoS means to use it, not as the code keeps it: a map
from heights, where a write sets the entry of its height and an erase removes
it. -/
def intendedStakeIndex (ops : List IndexOp) (height : UInt32) : Option uint160 :=
  ops.foldl (fun last op => match op with
    | .writeStake h address => if h = height then some address else last
    | .eraseStake h => if h = height then none else last
    | _ => last) none

/-- A stake written at height 5 and erased is still read at 5, and is read at
height 4, where nothing was written; a delegate written and erased is still
read; and erasing the delegate of height 7 where no delegate entry follows
deletes the height-index entry of height 7. Of `dev::h160` only its
constructor's copy of a twenty-byte vector is used. -/
theorem stakeIndex_reads_erased_and_unwritten_heights (h160 : List UInt8 → List UInt8)
    (h160_of_length : ∀ bytes : List UInt8, bytes.length = 20 → h160 bytes = bytes) :
    let a : uint160 := ⟨List.replicate 20 0xaa, by simp⟩
    let ops := [IndexOp.writeStake 5 a, IndexOp.eraseStake 5]
    let heightIndexKey := DB_HEIGHTINDEX :: serUInt32BE 7 ++ [20] ++ List.replicate 20 0xbb
    intendedStakeIndex ops 5 = none ∧ intendedStakeIndex ops 4 = none ∧
      readStakeIndex h160 (runIndexOps h160 OrderedStore.empty ops) 5 uint160.zero = (true, a) ∧
      readStakeIndex h160 (runIndexOps h160 OrderedStore.empty ops) 4 uint160.zero = (true, a) ∧
      readDelegateIndex h160 (runIndexOps h160 OrderedStore.empty [.writeDelegate 5 a 10, .eraseDelegate 5]) 5
        uint160.zero 0 = (true, a, 10) ∧
      (runIndexOps h160 OrderedStore.empty [.writeOther heightIndexKey [1], .eraseDelegate 7]).get?
        heightIndexKey = none := by
  intro a ops heightIndexKey
  -- the stake eraser seeks above the height index and erases nothing
  have hstake : runIndexOps h160 OrderedStore.empty ops = writeStakeIndex OrderedStore.empty 5 a := by
    simp only [ops, runIndexOps, List.foldl, IndexOp.apply, eraseStakeIndex,
      eraseIndex_of_lt h160 (by decide : DB_HEIGHTINDEX < DB_STAKEINDEX)]
  -- the delegate eraser meets the delegate key first, which does not decode
  have hdelegate : runIndexOps h160 OrderedStore.empty [.writeDelegate 5 a 10, .eraseDelegate 5] =
      writeDelegateIndex OrderedStore.empty 5 a 10 := by
    have hseek : (writeDelegateIndex OrderedStore.empty 5 a 10).seek (heightKey DB_DELEGATEINDEX 5) =
        [(heightKey DB_DELEGATEINDEX 5, serDelegateEntry a 10)] := by decide
    simp only [runIndexOps, List.foldl, IndexOp.apply, eraseDelegateIndex]
    exact eraseIndex_of_seek_heightKey h160 hseek
  -- the height-index key decodes, with its twenty-byte address kept
  have hkey : getKey h160 heightIndexKey = (true, DB_HEIGHTINDEX, ⟨7, List.replicate 20 0xbb⟩) := by
    have hdecode : getKey h160 heightIndexKey = (true, DB_HEIGHTINDEX, ⟨7, h160 (List.replicate 20 0xbb)⟩) := rfl
    rw [hdecode, h160_of_length _ List.length_replicate]
  have hseek : ((OrderedStore.empty : CBlockTreeDB).write heightIndexKey [1]).seek (heightKey DB_DELEGATEINDEX 7) =
      [(heightIndexKey, [1])] := by decide
  refine ⟨by decide, by decide, ?_, ?_, ?_, ?_⟩
  · rw [hstake, readStakeIndex_congr h160 id]
    decide
  · rw [hstake, readStakeIndex_congr h160 id]
    decide
  · rw [hdelegate, readDelegateIndex_congr h160 id]
    decide
  · show (runIndexOps h160 OrderedStore.empty [.writeOther heightIndexKey [1], .eraseDelegate 7]).get?
      heightIndexKey = none
    rw [runIndexOps, List.foldl, List.foldl, List.foldl, IndexOp.apply, IndexOp.apply, eraseDelegateIndex,
      eraseIndex, hseek, eraseLoop, hkey, eraseLoop]
    decide

theorem stakeIndex_reads_erased_and_unwritten_heights_of_copied_hash :
    (∀ bytes : List UInt8, bytes.length = 20 → id bytes = bytes) ∧
    let a : uint160 := ⟨List.replicate 20 0xaa, by simp⟩
    let ops := [IndexOp.writeStake 5 a, IndexOp.eraseStake 5]
    let heightIndexKey := DB_HEIGHTINDEX :: serUInt32BE 7 ++ [20] ++ List.replicate 20 0xbb
    intendedStakeIndex ops 5 = none ∧ intendedStakeIndex ops 4 = none ∧
      readStakeIndex id (runIndexOps id OrderedStore.empty ops) 5 uint160.zero = (true, a) ∧
      readStakeIndex id (runIndexOps id OrderedStore.empty ops) 4 uint160.zero = (true, a) ∧
      readDelegateIndex id (runIndexOps id OrderedStore.empty [.writeDelegate 5 a 10, .eraseDelegate 5]) 5
        uint160.zero 0 = (true, a, 10) ∧
      (runIndexOps id OrderedStore.empty [.writeOther heightIndexKey [1], .eraseDelegate 7]).get?
        heightIndexKey = none :=
  ⟨fun _ _ => rfl, stakeIndex_reads_erased_and_unwritten_heights id fun _ _ => rfl⟩

end YuPost.Storage
