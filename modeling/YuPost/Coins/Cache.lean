import YuPost.Lib.OrderedStore

/-! `CCoinsViewCache` of `coins.cpp`: a chain of coin caches, each backed by
the one below it and the last by the database (`CCoinsViewDB` of `txdb.cpp`).
Outpoints are any ordered type `κ` and a coin's data (output, height and
flags) any type `α`. A `CCoinsMap`, an `unordered_map`, is an `OrderedStore`
iterated in key order. The coin's data being generic, two functions of it
are parameters: the heap memory the script of a freshly copied output takes
(`scriptUsage`, `memusage::DynamicUsage` of the script's `prevector` in
`memusage.h`) and `CScript::IsUnspendable` of `script/script.h`
(`isUnspendable`). The best block hash each view carries is left out. -/

namespace YuPost.Coins

open YuPost.Lib

/-- A `Coin` as a cache entry holds it: its data while unspent, `none` once
spent, and the heap memory of its script that `DynamicMemoryUsage` counts. -/
structure Coin (α : Type) where
  out : Option α
  usage : Nat
deriving DecidableEq

namespace Coin

variable {α : Type}

/-- `Coin()`: no output, no heap memory. -/
def empty : Coin α := ⟨none, 0⟩

def IsSpent (c : Coin α) : Bool := c.out.isNone

/-- `Clear`: the output set null in place. `CTxOut::SetNull` clears the
script with `CScript::clear`, which shrinks it to fit and so gives its heap
memory back. -/
def clear (_c : Coin α) : Coin α := ⟨none, 0⟩

end Coin

/-- `CCoinsCacheEntry`, its flags `DIRTY` and `FRESH` as two bits. -/
structure CCoinsCacheEntry (α : Type) where
  coin : Coin α
  dirty : Bool
  fresh : Bool
deriving DecidableEq

/-- One layer of `CCoinsViewCache`: its map and `cachedCoinsUsage`, a `size_t`. -/
structure CCoinsViewCache (κ α : Type) [LinearOrder κ] where
  cacheCoins : OrderedStore κ (CCoinsCacheEntry α)
  cachedCoinsUsage : UInt64

/-- The coins of the database and the chain of caches over it, top first. -/
structure CoinsState (κ α : Type) [LinearOrder κ] where
  db : OrderedStore κ α
  layers : List (CCoinsViewCache κ α)

section Cache

variable {κ α : Type} [LinearOrder κ] (scriptUsage : α → Nat) (isUnspendable : α → Bool)

/-- `CCoinsViewCache(baseIn)`: no entries. -/
def CCoinsViewCache.empty : CCoinsViewCache κ α := ⟨.empty, 0⟩

/-- The entry `FetchCoin` makes for the coin its parent found: a copy, neither
dirty nor fresh, its script holding `scriptUsage` of memory. -/
def fetchedEntry (o : α) : CCoinsCacheEntry α := ⟨⟨some o, scriptUsage o⟩, false, false⟩

/-- `FetchCoin` of the layer `v` over the layers `below`, given what `GetCoin`
of its parent answers and leaves: the entry `v` holds, or else one made from
the parent's coin. The parent is asked only when `v` holds no entry. -/
def fetchCoin (v : CCoinsViewCache κ α) (k : κ) (below : List (CCoinsViewCache κ α))
    (parent : List (CCoinsViewCache κ α) × Option α) :
    CCoinsViewCache κ α × List (CCoinsViewCache κ α) × Option (CCoinsCacheEntry α) :=
  match v.cacheCoins.get? k with
  | some e => (v, below, some e)
  | none =>
    match parent with
    | (below', none) => (v, below', none)
    | (below', some o) =>
      (⟨v.cacheCoins.write k (fetchedEntry scriptUsage o), v.cachedCoinsUsage + UInt64.ofNat (scriptUsage o)⟩,
        below', some (fetchedEntry scriptUsage o))

/-- `GetCoin` of the top of a chain over the database `db`: the unspent coin,
and the chain after it, every layer asked holding a copy. -/
def getCoin (db : OrderedStore κ α) :
    List (CCoinsViewCache κ α) → κ → List (CCoinsViewCache κ α) × Option α
  | [], k => ([], db.get? k)
  | v :: below, k =>
    let (v', below', e) := fetchCoin scriptUsage v k below (getCoin db below k)
    (v' :: below', e.bind (·.coin.out))

/-- `HaveCoin` of the layer `v`. -/
def haveCoin (db : OrderedStore κ α) (v : CCoinsViewCache κ α) (below : List (CCoinsViewCache κ α)) (k : κ) :
    (CCoinsViewCache κ α × List (CCoinsViewCache κ α)) × Bool :=
  let (v', below', e) := fetchCoin scriptUsage v k below (getCoin scriptUsage db below k)
  ((v', below'), e.any (!·.coin.IsSpent))

/-- `AccessCoin` of the layer `v`: the coin held, or `coinEmpty`. -/
def accessCoin (db : OrderedStore κ α) (v : CCoinsViewCache κ α) (below : List (CCoinsViewCache κ α)) (k : κ) :
    (CCoinsViewCache κ α × List (CCoinsViewCache κ α)) × Coin α :=
  let (v', below', e) := fetchCoin scriptUsage v k below (getCoin scriptUsage db below k)
  ((v', below'), (e.map (·.coin)).getD Coin.empty)

/-- `AddCoin` of the layer `v`, the coin of data `o` moved in. An entry the
layer lacks is put in empty by `emplace`, without asking the parent. -/
def addCoin (v : CCoinsViewCache κ α) (k : κ) (o : α) (possibleOverwrite : Bool) :
    Except String (CCoinsViewCache κ α) :=
  if isUnspendable o then .ok v
  else
    let (e, usage) := match v.cacheCoins.get? k with
      | some e => (e, v.cachedCoinsUsage - UInt64.ofNat e.coin.usage)
      | none => (⟨Coin.empty, false, false⟩, v.cachedCoinsUsage)
    if !possibleOverwrite && !e.coin.IsSpent then .error "Adding new coin that replaces non-pruned entry"
    else
      let fresh := !possibleOverwrite && !e.dirty
      .ok ⟨v.cacheCoins.write k ⟨⟨some o, scriptUsage o⟩, true, e.fresh || fresh⟩,
        usage + UInt64.ofNat (scriptUsage o)⟩

/-- One output of `AddCoins`: `possible_overwrite` is `HaveCoin` when `check`,
and whether the transaction is a coinbase otherwise. -/
def addCoinOf (db : OrderedStore κ α) (v : CCoinsViewCache κ α) (below : List (CCoinsViewCache κ α)) (k : κ)
    (o : α) (fCoinbase check : Bool) : Except String (CCoinsViewCache κ α × List (CCoinsViewCache κ α)) :=
  if check then
    let ((v', below'), overwrite) := haveCoin scriptUsage db v below k
    (addCoin scriptUsage isUnspendable v' k o overwrite).map (·, below')
  else (addCoin scriptUsage isUnspendable v k o fCoinbase).map (·, below)

/-- `AddCoins`: output `i` of the transaction, of data `coins[i]`, at
`outpoint i`. -/
def addCoins (db : OrderedStore κ α) (v : CCoinsViewCache κ α) (below : List (CCoinsViewCache κ α))
    (outpoint : Nat → κ) (coins : List α) (fCoinbase check : Bool) :
    Except String (CCoinsViewCache κ α × List (CCoinsViewCache κ α)) :=
  coins.zipIdx.foldlM (fun (v, below) (o, i) =>
    addCoinOf scriptUsage isUnspendable db v below (outpoint i) o fCoinbase check) (v, below)

/-- `SpendCoin` of the layer `v`. `moveout` is the content of the caller's
`moveout` slot, which the entry's coin is swapped with (`std::move` of a
`prevector` swaps), or `none` for no slot; it is returned with the answer. -/
def spendCoin (db : OrderedStore κ α) (v : CCoinsViewCache κ α) (below : List (CCoinsViewCache κ α)) (k : κ)
    (moveout : Option (Coin α)) :
    (CCoinsViewCache κ α × List (CCoinsViewCache κ α)) × Bool × Option (Coin α) :=
  let (v', below', e) := fetchCoin scriptUsage v k below (getCoin scriptUsage db below k)
  match e with
  | none => ((v', below'), false, moveout)
  | some e =>
    let usage := v'.cachedCoinsUsage - UInt64.ofNat e.coin.usage
    let (coin, moved) := match moveout with
      | some m => (m, some e.coin)
      | none => (e.coin, none)
    if e.fresh then ((⟨v'.cacheCoins.erase k, usage⟩, below'), true, moved)
    else ((⟨v'.cacheCoins.write k ⟨coin.clear, true, false⟩, usage⟩, below'), true, moved)

/-- `Uncache`: an entry neither dirty nor fresh is dropped. -/
def uncache (v : CCoinsViewCache κ α) (k : κ) : CCoinsViewCache κ α :=
  match v.cacheCoins.get? k with
  | some e =>
    if !e.dirty && !e.fresh then ⟨v.cacheCoins.erase k, v.cachedCoinsUsage - UInt64.ofNat e.coin.usage⟩ else v
  | none => v

/-- One entry of the child's map in `BatchWrite` of the layer `v`. -/
def batchWriteEntry (v : CCoinsViewCache κ α) (k : κ) (e : CCoinsCacheEntry α) :
    Except String (CCoinsViewCache κ α) :=
  if !e.dirty then .ok v
  else
    match v.cacheCoins.get? k with
    | none =>
      -- a fresh spent coin need not go up; anything else does, fresh if fresh below
      if e.fresh && e.coin.IsSpent then .ok v
      else .ok ⟨v.cacheCoins.write k ⟨e.coin, true, e.fresh⟩, v.cachedCoinsUsage + UInt64.ofNat e.coin.usage⟩
    | some ours =>
      if e.fresh && !ours.coin.IsSpent then
        .error "FRESH flag misapplied to cache entry for base transaction with spendable outputs"
      else if ours.fresh && e.coin.IsSpent then
        .ok ⟨v.cacheCoins.erase k, v.cachedCoinsUsage - UInt64.ofNat ours.coin.usage⟩
      else
        .ok ⟨v.cacheCoins.write k ⟨e.coin, true, ours.fresh⟩,
          v.cachedCoinsUsage - UInt64.ofNat ours.coin.usage + UInt64.ofNat e.coin.usage⟩

/-- `BatchWrite` of the layer `v`. -/
def batchWrite (v : CCoinsViewCache κ α) (mapCoins : List (κ × CCoinsCacheEntry α)) :
    Except String (CCoinsViewCache κ α) :=
  mapCoins.foldlM (fun v (k, e) => batchWriteEntry v k e) v

/-- `CCoinsViewDB::BatchWrite`: each dirty coin written, or erased when spent. -/
def batchWriteDB (db : OrderedStore κ α) (mapCoins : List (κ × CCoinsCacheEntry α)) : OrderedStore κ α :=
  mapCoins.foldl (fun db (k, e) =>
    if e.dirty then
      match e.coin.out with
      | none => db.erase k
      | some o => db.write k o
    else db) db

/-- `Flush` of the layer `v`: its map written into its parent, the layer
emptied. -/
def flush (db : OrderedStore κ α) (v : CCoinsViewCache κ α) :
    List (CCoinsViewCache κ α) → Except String (OrderedStore κ α × List (CCoinsViewCache κ α))
  | [] => .ok (batchWriteDB db v.cacheCoins.entries, [.empty])
  | p :: rest => (batchWrite p v.cacheCoins.entries).map fun p' => (db, .empty :: p' :: rest)

/-- An operation on the chain. Reads, additions and spends are at the top. -/
inductive CoinsOp (κ α : Type)
  /-- `GetCoin`, `HaveCoin` or `AccessCoin` of layer `i`: one `FetchCoin`. -/
  | fetch (i : Nat) (k : κ)
  /-- One output of `AddCoins` at the top. -/
  | addCoin (k : κ) (o : α) (fCoinbase check : Bool)
  /-- `SpendCoin` at the top, moving the coin into an empty `Coin`, or nowhere. -/
  | spendCoin (k : κ) (moveout : Bool)
  | uncache (i : Nat) (k : κ)
  | flush (i : Nat)

/-- What an operation on layer `i` does to the whole state, given what it does
to the database, that layer and the layers below it. A layer the chain does
not have is left alone. -/
def onLayer (s : CoinsState κ α) (i : Nat)
    (f : OrderedStore κ α → CCoinsViewCache κ α → List (CCoinsViewCache κ α) →
      Except String (OrderedStore κ α × List (CCoinsViewCache κ α))) : Except String (CoinsState κ α) :=
  match s.layers.drop i with
  | [] => .ok s
  | v :: below => (f s.db v below).map fun (db, rest) => ⟨db, s.layers.take i ++ rest⟩

/-- One operation; an error is a `logic_error` thrown. -/
def step (s : CoinsState κ α) : CoinsOp κ α → Except String (CoinsState κ α)
  | .fetch i k => onLayer s i fun db v below => .ok (db, (getCoin scriptUsage db (v :: below) k).1)
  | .addCoin k o fCoinbase check => onLayer s 0 fun db v below =>
    (addCoinOf scriptUsage isUnspendable db v below k o fCoinbase check).map fun (v', below') => (db, v' :: below')
  | .spendCoin k moveout => onLayer s 0 fun db v below =>
    let ((v', below'), _) := spendCoin scriptUsage db v below k (if moveout then some Coin.empty else none)
    .ok (db, v' :: below')
  | .uncache i k => onLayer s i fun db v below => .ok (db, uncache v k :: below)
  | .flush i => onLayer s i flush

/-- The operations in turn; an error stops the run. -/
def run (s : CoinsState κ α) (ops : List (CoinsOp κ α)) : Except String (CoinsState κ α) :=
  ops.foldlM (step scriptUsage isUnspendable) s

end Cache

end YuPost.Coins
