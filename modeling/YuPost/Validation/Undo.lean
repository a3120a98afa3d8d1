import Mathlib
import YuPost.Coins.Refinement
import YuPost.Script.Interpreter
import YuPost.Validation.ConnectBlock

/-! `UpdateCoins` and its undo record, `ApplyTxInUndo` and the coins part of
`CChainState::DisconnectBlock` of `validation.cpp`, on a `CCoinsViewCache`
modelled by `YuPost.Coins.Cache`: its own layer over the layers below it and
the database, coins at outpoints of `Coin` data. A spent `Coin` is the null
output at height 0 with no flags, as `Coin::Clear` leaves it. The address,
stake and delegation indexes, the event log and the contract state roots
that `DisconnectBlock` also rolls back, and the reading of the undo data from
disk, are left out; `MAX_OUTPUTS_PER_BLOCK`, fixed when the node starts from
the block weight limit, is a parameter. -/

namespace YuPost.Validation

open YuPost.Lib YuPost.Primitives YuPost.Script

/-- Outpoints in order of hash bytes, then index: any order will do for a
`CCoinsMap`, an `unordered_map`. -/
instance outPointOrder : LinearOrder COutPoint where
  le a b := toLex (a.hash.data, a.n.toNat) ≤ toLex (b.hash.data, b.n.toNat)
  lt a b := toLex (a.hash.data, a.n.toNat) < toLex (b.hash.data, b.n.toNat)
  le_refl _ := le_refl _
  le_trans _ _ _ := le_trans
  lt_iff_le_not_ge _ _ := lt_iff_le_not_ge
  le_antisymm a b hab hba := by
    obtain ⟨⟨da, la⟩, na⟩ := a
    obtain ⟨⟨db, lb⟩, nb⟩ := b
    have h : toLex (da, na.toNat) = toLex (db, nb.toNat) := le_antisymm hab hba
    simp only [toLex_inj, Prod.mk.injEq] at h
    obtain ⟨rfl, hn⟩ := h
    rw [UInt32.toNat_inj.mp hn]
  le_total _ _ := le_total _ _
  toDecidableLE := fun _ _ => inferInstance
  toDecidableLT := fun _ _ => inferInstance
  toDecidableEq := inferInstance

/-- `CScript::IsUnspendable`: an `OP_RETURN` script, or one over the size limit. -/
def isUnspendable (script : CScript) : Bool :=
  script.head? == some OP_RETURN || script.length > MAX_SCRIPT_SIZE

/-- The check `AddCoin` makes before it adds a coin. -/
def Coin.isUnspendable (coin : Coin) : Bool := Validation.isUnspendable coin.out.scriptPubKey

end YuPost.Validation

namespace YuPost.Validation.Undo

open YuPost.Lib YuPost.Primitives YuPost.Script YuPost.Coins

/-- The fields of a spent `Coin`: `CTxOut::SetNull` leaves `nValue` at -1 and
an empty script. -/
def spentCoin : Coin := ⟨⟨-1, []⟩, 0, false, false⟩

/-- The fields of a coin as the source reads them, spent or not. -/
def coinOf (c : Coins.Coin Coin) : Coin := c.out.getD spentCoin

/-- The coin at output `i` of a transaction, as `AddCoins` makes it; the
constructor stores the height in the 30-bit field `nHeight`. -/
def txCoin (tx : CTransaction) (nHeight : Int) (out : CTxOut) : Coin :=
  ⟨out, nHeight % 2 ^ 30, tx.isCoinBase, tx.isCoinStake⟩

/-- A `CCoinsViewCache` as `UpdateCoins` and `DisconnectBlock` are given it:
its own layer, over the layers below it and the database. -/
structure CacheView where
  db : OrderedStore COutPoint Coin
  top : CCoinsViewCache COutPoint Coin
  below : List (CCoinsViewCache COutPoint Coin)

namespace CacheView

/-- The coins the view answers for. -/
def view (s : CacheView) : COutPoint → Option Coin := viewOver s.db.get? (s.top :: s.below)

/-- Every layer's flags mean what they say. -/
def Inv (s : CacheView) : Prop := ChainInv s.db.get? (s.top :: s.below)

variable (scriptUsage : Coin → Nat)

def spendCoin (s : CacheView) (k : COutPoint) (moveout : Option (Coins.Coin Coin)) :
    CacheView × Bool × Option (Coins.Coin Coin) :=
  let ((top, below), found, moved) := Coins.spendCoin scriptUsage s.db s.top s.below k moveout
  (⟨s.db, top, below⟩, found, moved)

def haveCoin (s : CacheView) (k : COutPoint) : CacheView × Bool :=
  let ((top, below), found) := Coins.haveCoin scriptUsage s.db s.top s.below k
  (⟨s.db, top, below⟩, found)

def accessCoin (s : CacheView) (k : COutPoint) : CacheView × Coins.Coin Coin :=
  let ((top, below), coin) := Coins.accessCoin scriptUsage s.db s.top s.below k
  (⟨s.db, top, below⟩, coin)

def addCoin (s : CacheView) (k : COutPoint) (coin : Coin) (possibleOverwrite : Bool) : Except String CacheView :=
  (Coins.addCoin scriptUsage Coin.isUnspendable s.top k coin possibleOverwrite).map fun top => ⟨s.db, top, s.below⟩

/-- `AddCoins` of a transaction's outputs at `COutPoint(txid, i)`. -/
def addCoins (txid : CTransaction → uint256) (s : CacheView) (tx : CTransaction) (nHeight : Int) (check : Bool) :
    Except String CacheView :=
  (Coins.addCoins scriptUsage Coin.isUnspendable s.db s.top s.below (fun i => ⟨txid tx, UInt32.ofNat i⟩)
    (tx.vout.map (txCoin tx nHeight)) tx.isCoinBase check).map fun (top, below) => ⟨s.db, top, below⟩

end CacheView

section Undo

variable (scriptUsage : Coin → Nat) (txid : CTransaction → uint256) (maxOutputsPerBlock : Nat)

/-- The loop of `UpdateCoins` over the inputs: each coin spent into a new
slot of `txundo.vprevout`, having been there (`assert(is_spent)`). -/
def spendInputs (s : CacheView) : List CTxIn → Except String (CacheView × List (Coins.Coin Coin))
  | [] => .ok (s, [])
  | txin :: vin =>
    let (s, is_spent, moved) := s.spendCoin scriptUsage txin.prevout (some Coins.Coin.empty)
    if !is_spent then .error "assert(is_spent)"
    else (spendInputs s vin).map fun (s, vprevout) => (s, moved.getD Coins.Coin.empty :: vprevout)

/-- `UpdateCoins`: the inputs spent into the undo record, unless a coinbase,
then the outputs added, which may overwrite only in a coinbase. -/
def updateCoins (tx : CTransaction) (inputs : CacheView) (nHeight : Int) :
    Except String (CacheView × List (Coins.Coin Coin)) := do
  let (inputs, vprevout) ← if tx.isCoinBase then .ok (inputs, []) else spendInputs scriptUsage inputs tx.vin
  let inputs ← inputs.addCoins scriptUsage txid tx nHeight false
  .ok (inputs, vprevout)

/-- The calls of `UpdateCoins` in the transaction loop of `ConnectBlock`: one
`CTxUndo` for each transaction but the coinbase, the first. -/
def connectCoins (nHeight : Int) : List (CTransaction × Nat) → CacheView →
    Except String (CacheView × List (List (Coins.Coin Coin)))
  | [], s => .ok (s, [])
  | (tx, i) :: rest, s => do
    let (s, txundo) ← updateCoins scriptUsage txid tx s nHeight
    let (s, vtxundo) ← connectCoins nHeight rest s
    .ok (s, if i > 0 then txundo :: vtxundo else vtxundo)

inductive DisconnectResult
  | DISCONNECT_OK
  | DISCONNECT_UNCLEAN
  | DISCONNECT_FAILED
deriving DecidableEq

/-- The loop of `AccessByTxid` from output `n`, `fuel` outputs left. -/
def accessByTxidLoop (hash : uint256) : Nat → Nat → CacheView → CacheView × Coins.Coin Coin
  | 0, _, s => (s, Coins.Coin.empty)
  | fuel + 1, n, s =>
    let (s, alternate) := s.accessCoin scriptUsage ⟨hash, UInt32.ofNat n⟩
    if !alternate.IsSpent then (s, alternate) else accessByTxidLoop hash fuel (n + 1) s

/-- `AccessByTxid`: the first unspent output of a transaction among its first
`MAX_OUTPUTS_PER_BLOCK`, or `coinEmpty`. -/
def accessByTxid (s : CacheView) (hash : uint256) : CacheView × Coins.Coin Coin :=
  accessByTxidLoop scriptUsage hash maxOutputsPerBlock 0 s

/-- `undo.nHeight = alternate.nHeight; undo.fCoinBase = alternate.fCoinBase;` -/
def withMetadata (undo : Coins.Coin Coin) (alternate : Coin) : Coins.Coin Coin :=
  ⟨undo.out.map fun c => ⟨c.out, alternate.nHeight, alternate.fCoinBase, c.fCoinStake⟩, undo.usage⟩

/-- An undo coin with its height and coinbase flag; an undo record of an
older version lacks them (height 0), and they are taken from another unspent
output of the transaction, or else the undo fails (`none`). -/
def undoWithMetadata (s : CacheView) (undo : Coins.Coin Coin) (out : COutPoint) :
    CacheView × Option (Coins.Coin Coin) :=
  if (coinOf undo).nHeight = 0 then
    let (s, alternate) := accessByTxid scriptUsage maxOutputsPerBlock s out.hash
    if !alternate.IsSpent then (s, some (withMetadata undo (coinOf alternate))) else (s, none)
  else (s, some undo)

/-- `ApplyTxInUndo`: the undo coin put back at the input's outpoint,
overwriting (and unclean) when the view has a coin there. -/
def applyTxInUndo (undo : Coins.Coin Coin) (s : CacheView) (out : COutPoint) :
    Except String (CacheView × DisconnectResult) :=
  let (s, fHave) := s.haveCoin scriptUsage out
  let fClean := !fHave
  match undoWithMetadata scriptUsage maxOutputsPerBlock s undo out with
  | (s, none) => .ok (s, .DISCONNECT_FAILED)
  | (s, some undo) =>
    match undo.out with
    -- `AddCoin` asserts that the coin is unspent
    | none => .error "assert(!coin.IsSpent())"
    | some coin =>
      (s.addCoin scriptUsage out coin !fClean).map fun s =>
        (s, if fClean then .DISCONNECT_OK else .DISCONNECT_UNCLEAN)

/-- One output in the first loop of `DisconnectBlock` over a transaction:
unless unspendable, spent out of the view, `fClean` cleared where it was not
there as the block made it. -/
def spendOutput (tx : CTransaction) (nHeight : Int) (acc : CacheView × Bool) (e : CTxOut × Nat) :
    CacheView × Bool :=
  let (s, fClean) := acc
  let (out, o) := e
  if isUnspendable out.scriptPubKey then (s, fClean)
  else
    let (s, is_spent, coin) := s.spendCoin scriptUsage ⟨txid tx, UInt32.ofNat o⟩ (some Coins.Coin.empty)
    let coin := coinOf (coin.getD Coins.Coin.empty)
    (s, fClean && !(!is_spent || out != coin.out || nHeight != coin.nHeight ||
      tx.isCoinBase != coin.fCoinBase || tx.isCoinStake != coin.fCoinStake))

def spendOutputs (tx : CTransaction) (nHeight : Int) (s : CacheView) (fClean : Bool) : CacheView × Bool :=
  tx.vout.zipIdx.foldl (spendOutput scriptUsage txid tx nHeight) (s, fClean)

/-- The loop of `DisconnectBlock` restoring a transaction's inputs, given in
reverse order with their undo coins; `none` is `DISCONNECT_FAILED` returned. -/
def restoreInputs : List (CTxIn × Coins.Coin Coin) → CacheView → Bool → Except String (CacheView × Option Bool)
  | [], s, fClean => .ok (s, some fClean)
  | (txin, undo) :: rest, s, fClean => do
    let (s, res) ← applyTxInUndo scriptUsage maxOutputsPerBlock undo s txin.prevout
    if res = .DISCONNECT_FAILED then .ok (s, none)
    else restoreInputs rest s (fClean && res != .DISCONNECT_UNCLEAN)

/-- The loop of `DisconnectBlock` over the transactions, last first. -/
def disconnectTxs (nHeight : Int) (vtxundo : List (List (Coins.Coin Coin))) :
    List (CTransaction × Nat) → CacheView → Bool → Except String (CacheView × DisconnectResult)
  | [], s, fClean => .ok (s, if fClean then .DISCONNECT_OK else .DISCONNECT_UNCLEAN)
  | (tx, i) :: rest, s, fClean =>
    let (s, fClean) := spendOutputs scriptUsage txid tx nHeight s fClean
    if i > 0 then
      let vprevout := vtxundo.getD (i - 1) []
      if vprevout.length ≠ tx.vin.length then .ok (s, .DISCONNECT_FAILED)
      else do
        let (s, fClean) ← restoreInputs scriptUsage maxOutputsPerBlock (tx.vin.zip vprevout).reverse s fClean
        match fClean with
        | none => .ok (s, .DISCONNECT_FAILED)
        | some fClean => disconnectTxs nHeight vtxundo rest s fClean
    else disconnectTxs nHeight vtxundo rest s fClean

/-- The coins part of `DisconnectBlock`, given the block's undo data. -/
def disconnectBlock (block : CBlock) (nHeight : Int) (blockUndo : List (List (Coins.Coin Coin))) (s : CacheView) :
    Except String (CacheView × DisconnectResult) :=
  if blockUndo.length + 1 ≠ block.vtx.length then .ok (s, .DISCONNECT_FAILED)
  else disconnectTxs scriptUsage txid maxOutputsPerBlock nHeight blockUndo block.vtx.zipIdx.reverse s true

end Undo

section Flat

variable (txid : CTransaction → uint256)

/-- The outpoints a transaction's inputs spend; a coinbase spends none. -/
def txSpends (tx : CTransaction) : List COutPoint := if tx.isCoinBase then [] else tx.vin.map (·.prevout)

/-- The outputs of a transaction that `AddCoin` does not drop as
unspendable, at their outpoints. -/
def txOutputs (tx : CTransaction) (nHeight : Int) : List (COutPoint × Coin) :=
  (tx.vout.zipIdx.filter fun e => !isUnspendable e.1.scriptPubKey).map fun e =>
    (⟨txid tx, UInt32.ofNat e.2⟩, txCoin tx nHeight e.1)

/-- What connecting a transaction does to the coins: the coins its inputs
spend gone, its outputs there. -/
def connectView (m : COutPoint → Option Coin) (tx : CTransaction) (nHeight : Int) : COutPoint → Option Coin :=
  updateAll (updateAll m ((txSpends tx).map fun k => (k, none))) ((txOutputs txid tx nHeight).map fun e => (e.1, some e.2))

/-- A coin an undo record can put back: one with its height, which
`ApplyTxInUndo` reads, and one `AddCoin` does not drop. -/
def restorable : Option Coin → Bool
  | some c => c.nHeight != 0 && !c.isUnspendable
  | none => false

/-- What connecting a transaction on the coins `m` needs to be undone: it
spends distinct coins, each restorable, and its outputs are at distinct
outpoints that hold no coin once its inputs are spent. -/
structure Connectable (m : COutPoint → Option Coin) (tx : CTransaction) (nHeight : Int) : Prop where
  spends_nodup : (txSpends tx).Nodup
  spends_restorable : ∀ k ∈ txSpends tx, restorable (m k) = true
  outputs_nodup : ((txOutputs txid tx nHeight).map Prod.fst).Nodup
  outputs_absent : ∀ e ∈ txOutputs txid tx nHeight,
    (updateAll m ((txSpends tx).map fun k => (k, none)) e.1).isNone = true

instance (m : COutPoint → Option Coin) (tx : CTransaction) (nHeight : Int) :
    Decidable (Connectable txid m tx nHeight) :=
  decidable_of_iff (_ ∧ _ ∧ _ ∧ _) ⟨fun ⟨a, b, c, d⟩ => ⟨a, b, c, d⟩, fun ⟨a, b, c, d⟩ => ⟨a, b, c, d⟩⟩

/-- The transactions of a block, each `Connectable` on the coins those before
it leave. -/
def BlockConnectable (m : COutPoint → Option Coin) (nHeight : Int) : List CTransaction → Prop
  | [] => True
  | tx :: rest => Connectable txid m tx nHeight ∧ BlockConnectable (connectView txid m tx nHeight) nHeight rest

instance blockConnectableDecidable (m : COutPoint → Option Coin) (nHeight : Int) :
    (txs : List CTransaction) → Decidable (BlockConnectable txid m nHeight txs)
  | [] => isTrue trivial
  | tx :: rest =>
    haveI := blockConnectableDecidable (connectView txid m tx nHeight) nHeight rest
    inferInstanceAs (Decidable (_ ∧ _))

/-- The coins after the transactions in turn. -/
def connectViews (m : COutPoint → Option Coin) (nHeight : Int) (txs : List CTransaction) : COutPoint → Option Coin :=
  txs.foldl (fun m tx => connectView txid m tx nHeight) m

/-- The coins each transaction's undo record holds: those its inputs spend,
on the coins those before it leave. -/
def undoRecords (m : COutPoint → Option Coin) (nHeight : Int) : List CTransaction → List (List (Option Coin))
  | [] => []
  | tx :: rest => (txSpends tx).map m :: undoRecords (connectView txid m tx nHeight) nHeight rest

theorem length_undoRecords (m : COutPoint → Option Coin) (nHeight : Int) :
    ∀ txs : List CTransaction, (undoRecords txid m nHeight txs).length = txs.length
  | [] => rfl
  | tx :: rest => by rw [undoRecords, List.length_cons, length_undoRecords _ _ rest, List.length_cons]

theorem addCoins_list_eq (tx : CTransaction) (nHeight : Int) :
    (((tx.vout.map (txCoin tx nHeight)).zipIdx.filter fun e => !e.1.isUnspendable).map fun e =>
      ((⟨txid tx, UInt32.ofNat e.2⟩ : COutPoint), some e.1)) =
      (txOutputs txid tx nHeight).map fun e => (e.1, some e.2) := by
  rw [List.zipIdx_map, List.filter_map, List.map_map, txOutputs, List.map_map]
  rfl

theorem addCoins_keys_eq (tx : CTransaction) (nHeight : Int) :
    (((tx.vout.map (txCoin tx nHeight)).zipIdx.filter fun e => !e.1.isUnspendable).map fun e =>
      (⟨txid tx, UInt32.ofNat e.2⟩ : COutPoint)) = (txOutputs txid tx nHeight).map Prod.fst := by
  rw [List.zipIdx_map, List.filter_map, List.map_map, txOutputs, List.map_map]
  rfl

theorem mem_txOutputs_of_mem {tx : CTransaction} {nHeight : Int} {e : Coin × Nat}
    (he : e ∈ (tx.vout.map (txCoin tx nHeight)).zipIdx) (hu : e.1.isUnspendable = false) :
    ((⟨txid tx, UInt32.ofNat e.2⟩ : COutPoint), e.1) ∈ txOutputs txid tx nHeight := by
  rw [List.zipIdx_map] at he
  obtain ⟨⟨out, i⟩, hmem, rfl⟩ := List.mem_map.mp he
  have hu' : isUnspendable out.scriptPubKey = false := hu
  exact List.mem_map.mpr ⟨(out, i), List.mem_filter.mpr ⟨hmem, by simp [hu']⟩, rfl⟩

end Flat

section Spec

variable (scriptUsage : Coin → Nat)

namespace CacheView

theorem spendCoin_view {s : CacheView} (hs : s.Inv) (k : COutPoint) (moveout : Option (Coins.Coin Coin)) :
    (s.spendCoin scriptUsage k moveout).1.Inv ∧
      (s.spendCoin scriptUsage k moveout).1.view = Function.update s.view k none := by
  obtain ⟨v', below', h, hinv, hview⟩ := Coins.spendCoin_spec scriptUsage hs k moveout
  rcases hsp : Coins.spendCoin scriptUsage s.db s.top s.below k moveout with ⟨⟨top, below⟩, found, moved⟩
  rw [hsp, Prod.mk.injEq] at h
  obtain ⟨rfl, rfl⟩ := h
  simp only [spendCoin, hsp]
  exact ⟨hinv, hview⟩

theorem spendCoin_found {s : CacheView} (hs : s.Inv) {k : COutPoint} {c : Coin} (hk : s.view k = some c)
    (m : Coins.Coin Coin) :
    (s.spendCoin scriptUsage k (some m)).2.1 = true ∧ (s.spendCoin scriptUsage k (some m)).2.2.bind (·.out) = some c :=
  Coins.spendCoin_found scriptUsage hs hk m

theorem haveCoin_view {s : CacheView} (hs : s.Inv) (k : COutPoint) :
    (s.haveCoin scriptUsage k).2 = (s.view k).isSome ∧ (s.haveCoin scriptUsage k).1.Inv ∧
      (s.haveCoin scriptUsage k).1.view = s.view := by
  obtain ⟨v', below', h, hf⟩ := Coins.haveCoin_spec scriptUsage hs k
  simp only [haveCoin, h]
  exact ⟨rfl, hf.chain, hf.view⟩

theorem addCoin_view {s : CacheView} (hs : s.Inv) {k : COutPoint} {c : Coin} (possibleOverwrite : Bool)
    (hadm : possibleOverwrite = false → c.isUnspendable = false → s.view k = none) :
    ∃ s', s.addCoin scriptUsage k c possibleOverwrite = .ok s' ∧ s'.Inv ∧
      s'.view = if c.isUnspendable then s.view else Function.update s.view k (some c) := by
  obtain ⟨hv, hbelow⟩ := hs
  have hadm' : possibleOverwrite = false → c.isUnspendable = false →
      viewOver (viewOver s.db.get? s.below) [s.top] k = none := fun hpo hu => by
    rw [← viewOver_cons_eq]
    exact hadm hpo hu
  obtain ⟨top', hadd, htop, hview⟩ := Coins.addCoin_spec scriptUsage Coin.isUnspendable hv hadm'
  refine ⟨⟨s.db, top', s.below⟩, by simp only [addCoin, hadd]; rfl, ⟨htop, hbelow⟩, ?_⟩
  show viewOver s.db.get? (top' :: s.below) = _
  rw [viewOver_cons_eq, hview]
  rfl

theorem addCoins_view (txid : CTransaction → uint256) {s : CacheView} (hs : s.Inv) (tx : CTransaction)
    (nHeight : Int) (hnodup : ((txOutputs txid tx nHeight).map Prod.fst).Nodup)
    (habsent : ∀ e ∈ txOutputs txid tx nHeight, s.view e.1 = none) :
    ∃ s', s.addCoins scriptUsage txid tx nHeight false = .ok s' ∧ s'.Inv ∧
      s'.view = updateAll s.view ((txOutputs txid tx nHeight).map fun e => (e.1, some e.2)) := by
  have hlist := addCoins_list_eq txid tx nHeight
  have hkeys := addCoins_keys_eq txid tx nHeight
  obtain ⟨top', below', hfold, hinv, hview⟩ := addCoins_foldlM_spec scriptUsage Coin.isUnspendable s.db
    (fun i => ⟨txid tx, UInt32.ofNat i⟩) tx.isCoinBase ((tx.vout.map (txCoin tx nHeight)).zipIdx) hs
    (hkeys ▸ hnodup) fun e he hu => habsent _ (mem_txOutputs_of_mem txid he hu)
  refine ⟨⟨s.db, top', below'⟩, ?_, hinv, ?_⟩
  · show (Coins.addCoins scriptUsage Coin.isUnspendable s.db s.top s.below _ _ _ false).map _ = _
    rw [Coins.addCoins, hfold]
    rfl
  · show viewOver s.db.get? (top' :: below') = _
    rw [hview, hlist]
    rfl

end CacheView

theorem out_getD_of_bind {moved : Option (Coins.Coin Coin)} {c : Coin} (h : moved.bind (·.out) = some c)
    (d : Coins.Coin Coin) : (moved.getD d).out = some c := by
  cases moved with
  | none => simp at h
  | some m => exact h

/-- The loop of `UpdateCoins` over inputs spending distinct coins the view
has: no assertion fails, the coins are gone, and the undo record holds them
in order. -/
theorem spendInputs_spec : ∀ (vin : List CTxIn) {s : CacheView}, s.Inv → (vin.map (·.prevout)).Nodup →
    (∀ txin ∈ vin, (s.view txin.prevout).isSome) →
    ∃ s' vprevout, spendInputs scriptUsage s vin = .ok (s', vprevout) ∧ s'.Inv ∧
      s'.view = updateAll s.view (vin.map fun txin => (txin.prevout, none)) ∧
      vprevout.map (·.out) = vin.map fun txin => s.view txin.prevout
  | [], s, hs, _, _ => ⟨s, [], rfl, hs, rfl, rfl⟩
  | txin :: vin, s, hs, hnodup, hpresent => by
    obtain ⟨c, hc⟩ := Option.isSome_iff_exists.mp (hpresent txin List.mem_cons_self)
    obtain ⟨hinv1, hview1⟩ := s.spendCoin_view scriptUsage hs txin.prevout (some Coins.Coin.empty)
    obtain ⟨hfound, hmoved⟩ := s.spendCoin_found scriptUsage hs hc Coins.Coin.empty
    rcases hsc : s.spendCoin scriptUsage txin.prevout (some Coins.Coin.empty) with ⟨s1, found, moved⟩
    rw [hsc] at hinv1 hview1 hfound hmoved
    dsimp only at hinv1 hview1 hfound hmoved
    rw [List.map_cons, List.nodup_cons] at hnodup
    -- the later inputs spend other coins, which the view still has
    have hsame : ∀ t ∈ vin, s1.view t.prevout = s.view t.prevout := fun t ht => by
      rw [hview1, Function.update_of_ne fun h => hnodup.1 (List.mem_map.mpr ⟨t, ht, h⟩)]
    obtain ⟨s', vprevout, hspend, hinv', hview', hundo⟩ := spendInputs_spec vin hinv1 hnodup.2
      fun t ht => (hsame t ht).symm ▸ hpresent t (List.mem_cons_of_mem _ ht)
    refine ⟨s', moved.getD Coins.Coin.empty :: vprevout, ?_, hinv', ?_, ?_⟩
    · simp only [spendInputs, hsc, hfound, Bool.not_true, Bool.false_eq_true, if_false, hspend]
      rfl
    · rw [hview', hview1, List.map_cons, updateAll_cons]
    · rw [List.map_cons, List.map_cons, out_getD_of_bind hmoved, hc, hundo]
      exact congrArg _ (List.map_congr_left hsame)

/-- `UpdateCoins` of a transaction `Connectable` on the view: no assertion
fails and nothing throws, the view then holds the coins `connectView` says,
and the undo record the coins the inputs spent. -/
theorem updateCoins_spec (txid : CTransaction → uint256) {s : CacheView} (hs : s.Inv) {tx : CTransaction}
    {nHeight : Int} (hc : Connectable txid s.view tx nHeight) :
    ∃ s' vprevout, updateCoins scriptUsage txid tx s nHeight = .ok (s', vprevout) ∧ s'.Inv ∧
      s'.view = connectView txid s.view tx nHeight ∧ vprevout.map (·.out) = (txSpends tx).map s.view := by
  -- first the inputs, into the undo record
  obtain ⟨s1, vprevout, hspend, hinv1, hview1, hundo⟩ : ∃ s1 vprevout,
      (if tx.isCoinBase then .ok (s, []) else spendInputs scriptUsage s tx.vin) = .ok (s1, vprevout) ∧ s1.Inv ∧
        s1.view = updateAll s.view ((txSpends tx).map fun k => (k, none)) ∧
        vprevout.map (·.out) = (txSpends tx).map s.view := by
    cases hcb : tx.isCoinBase
    · have hspends : txSpends tx = tx.vin.map (·.prevout) := by simp [txSpends, hcb]
      have hnodup := hc.spends_nodup
      rw [hspends] at hnodup
      obtain ⟨s1, vprevout, h, hinv1, hview1, hundo⟩ := spendInputs_spec scriptUsage tx.vin hs hnodup
        fun txin htxin => by
          have hr := hc.spends_restorable txin.prevout (hspends ▸ List.mem_map_of_mem htxin)
          revert hr
          cases s.view txin.prevout <;> simp [restorable]
      refine ⟨s1, vprevout, by simpa using h, hinv1, ?_, ?_⟩
      · rw [hview1, hspends, List.map_map]
        rfl
      · rw [hundo, hspends, List.map_map]
        rfl
    · exact ⟨s, [], by simp, hs, by simp [txSpends, hcb], by simp [txSpends, hcb]⟩
  -- then the outputs, over no coin once the inputs are spent
  obtain ⟨s2, hadd, hinv2, hview2⟩ := CacheView.addCoins_view scriptUsage txid hinv1 tx nHeight
    hc.outputs_nodup fun e he => by
      rw [hview1]
      exact Option.isNone_iff_eq_none.mp (hc.outputs_absent e he)
  refine ⟨s2, vprevout, ?_, hinv2, by rw [hview2, hview1]; rfl, hundo⟩
  cases hcb : tx.isCoinBase
  · rw [hcb, if_neg Bool.false_ne_true] at hspend
    simp only [updateCoins, hcb, Bool.false_eq_true, if_false, hspend, bind, Except.bind, hadd]
  · rw [hcb, if_pos rfl] at hspend
    cases hspend
    simp only [updateCoins, hcb, if_true, bind, Except.bind, hadd]

section Disconnect

variable (txid : CTransaction → uint256) (maxOutputsPerBlock : Nat)

/-- The first loop of `DisconnectBlock` over outputs that the view holds as
the block made them, at distinct outpoints: `fClean` is kept and the outputs
are gone. -/
theorem spendOutputs_foldl_spec (tx : CTransaction) (nHeight : Int) (hheight : 0 ≤ nHeight ∧ nHeight < 2 ^ 30) :
    ∀ (L : List (CTxOut × Nat)) {s : CacheView} {fClean : Bool}, s.Inv →
      ((L.filter fun e => !isUnspendable e.1.scriptPubKey).map fun e =>
        (⟨txid tx, UInt32.ofNat e.2⟩ : COutPoint)).Nodup →
      (∀ e ∈ L, isUnspendable e.1.scriptPubKey = false →
        s.view ⟨txid tx, UInt32.ofNat e.2⟩ = some (txCoin tx nHeight e.1)) →
      (L.foldl (spendOutput scriptUsage txid tx nHeight) (s, fClean)).2 = fClean ∧
      (L.foldl (spendOutput scriptUsage txid tx nHeight) (s, fClean)).1.Inv ∧
      (L.foldl (spendOutput scriptUsage txid tx nHeight) (s, fClean)).1.view =
        updateAll s.view ((L.filter fun e => !isUnspendable e.1.scriptPubKey).map fun e =>
          ((⟨txid tx, UInt32.ofNat e.2⟩ : COutPoint), none))
  | [], s, _, hs, _, _ => ⟨rfl, hs, rfl⟩
  | (out, o) :: L, s, fClean, hs, hnodup, hheld => by
    rw [List.foldl_cons]
    cases hu : isUnspendable out.scriptPubKey
    · -- the output is there as the block made it: spent, and `fClean` kept
      rw [List.filter_cons_of_pos (by simp [hu]), List.map_cons, List.nodup_cons] at hnodup
      rw [List.filter_cons_of_pos (by simp [hu]), List.map_cons, updateAll_cons]
      have hk := hheld (out, o) List.mem_cons_self hu
      obtain ⟨hinv1, hview1⟩ := s.spendCoin_view scriptUsage hs ⟨txid tx, UInt32.ofNat o⟩ (some Coins.Coin.empty)
      obtain ⟨hfound, hmoved⟩ := s.spendCoin_found scriptUsage hs hk Coins.Coin.empty
      rcases hsc : s.spendCoin scriptUsage ⟨txid tx, UInt32.ofNat o⟩ (some Coins.Coin.empty) with ⟨s1, found, moved⟩
      rw [hsc] at hinv1 hview1 hfound hmoved
      dsimp only at hinv1 hview1 hfound hmoved
      have hcoin : coinOf (moved.getD Coins.Coin.empty) = txCoin tx nHeight out := by
        rw [coinOf, out_getD_of_bind hmoved]
        rfl
      have hstep : spendOutput scriptUsage txid tx nHeight (s, fClean) (out, o) = (s1, fClean) := by
        -- the height fits the field, so the coin's height is the block's
        simp only [spendOutput, hu, Bool.false_eq_true, if_false, hsc, hfound, hcoin, txCoin,
          Int.emod_eq_of_lt hheight.1 hheight.2, bne_self_eq_false,
          Bool.not_true, Bool.or_false, Bool.not_false, Bool.and_true]
      rw [hstep, ← hview1]
      refine spendOutputs_foldl_spec tx nHeight hheight L hinv1 hnodup.2 fun e he heu => ?_
      have hne : (⟨txid tx, UInt32.ofNat e.2⟩ : COutPoint) ≠ ⟨txid tx, UInt32.ofNat o⟩ := fun h =>
        hnodup.1 (List.mem_map.mpr ⟨e, List.mem_filter.mpr ⟨he, by simp [heu]⟩, h⟩)
      rw [hview1, Function.update_of_ne hne]
      exact hheld e (List.mem_cons_of_mem _ he) heu
    · -- an unspendable output was never added and is passed over
      rw [List.filter_cons_of_neg (by simp [hu])] at hnodup ⊢
      have hstep : spendOutput scriptUsage txid tx nHeight (s, fClean) (out, o) = (s, fClean) := by
        simp only [spendOutput, hu, if_true]
      rw [hstep]
      exact spendOutputs_foldl_spec tx nHeight hheight L hs hnodup fun e he heu => hheld e (List.mem_cons_of_mem _ he) heu

theorem undoWithMetadata_of_height {s : CacheView} {undo : Coins.Coin Coin} (h : (coinOf undo).nHeight ≠ 0)
    (out : COutPoint) : undoWithMetadata scriptUsage maxOutputsPerBlock s undo out = (s, some undo) := by
  simp [undoWithMetadata, h]

theorem applyTxInUndo_spec {s : CacheView} (hs : s.Inv) {undo : Coins.Coin Coin} {k : COutPoint}
    (hk : s.view k = none) (hr : restorable undo.out = true) :
    ∃ s', applyTxInUndo scriptUsage maxOutputsPerBlock undo s k = .ok (s', .DISCONNECT_OK) ∧ s'.Inv ∧
      s'.view = Function.update s.view k undo.out := by
  obtain ⟨c, hc, hheight, hspendable⟩ : ∃ c, undo.out = some c ∧ c.nHeight ≠ 0 ∧ c.isUnspendable = false := by
    revert hr
    cases undo.out with
    | none => simp [restorable]
    | some c => simp [restorable]
  obtain ⟨hhave, hinv1, hview1⟩ := s.haveCoin_view scriptUsage hs k
  rcases hh : s.haveCoin scriptUsage k with ⟨s1, fHave⟩
  rw [hh] at hhave hinv1 hview1
  dsimp only at hhave hinv1 hview1
  rw [hk] at hhave
  obtain ⟨s2, hadd, hinv2, hview2⟩ := s1.addCoin_view scriptUsage hinv1 (k := k) (c := c) false
    fun _ _ => hview1 ▸ hk
  have hmeta : (coinOf undo).nHeight ≠ 0 := by rw [coinOf, hc]; exact hheight
  refine ⟨s2, ?_, hinv2, ?_⟩
  · simp only [applyTxInUndo, hh, hhave, undoWithMetadata_of_height scriptUsage maxOutputsPerBlock hmeta, hc,
      Option.isSome_none, Bool.not_false, Bool.not_true, hadd]
    rfl
  · rw [hview2, hspendable, if_neg Bool.false_ne_true, hview1, hc]

/-- The loop restoring inputs over restorable undo coins at distinct
outpoints where the view has none: every undo is clean, and the coins are
back. -/
theorem restoreInputs_spec : ∀ (R : List (CTxIn × Coins.Coin Coin)) {s : CacheView} (fClean : Bool), s.Inv →
    (R.map fun e => e.1.prevout).Nodup → (∀ e ∈ R, s.view e.1.prevout = none) →
    (∀ e ∈ R, restorable e.2.out = true) →
    ∃ s', restoreInputs scriptUsage maxOutputsPerBlock R s fClean = .ok (s', some fClean) ∧ s'.Inv ∧
      s'.view = updateAll s.view (R.map fun e => (e.1.prevout, e.2.out))
  | [], s, _, hs, _, _, _ => ⟨s, rfl, hs, rfl⟩
  | (txin, undo) :: R, s, fClean, hs, hnodup, hnone, hr => by
    obtain ⟨s1, happly, hinv1, hview1⟩ := applyTxInUndo_spec scriptUsage maxOutputsPerBlock hs
      (hnone _ List.mem_cons_self) (hr _ List.mem_cons_self)
    rw [List.map_cons, List.nodup_cons] at hnodup
    obtain ⟨s2, hrest, hinv2, hview2⟩ := restoreInputs_spec R fClean hinv1 hnodup.2
      (fun e he => by
        rw [hview1, Function.update_of_ne fun h => hnodup.1 (List.mem_map.mpr ⟨e, he, h⟩)]
        exact hnone e (List.mem_cons_of_mem _ he))
      fun e he => hr e (List.mem_cons_of_mem _ he)
    refine ⟨s2, ?_, hinv2, by rw [hview2, hview1, List.map_cons, updateAll_cons]⟩
    have hclean : (fClean && DisconnectResult.DISCONNECT_OK != .DISCONNECT_UNCLEAN) = fClean := by
      cases fClean <;> rfl
    simp [restoreInputs, happly, bind, Except.bind, hclean, hrest]

/-- The outputs of a transaction spent out of the view connecting it to `m`
left: `fClean` is kept, and the view is `m` with the coins its inputs spent
gone. -/
theorem spendOutputs_connectView {s : CacheView} (hs : s.Inv) {m : COutPoint → Option Coin} {tx : CTransaction}
    {nHeight : Int} (hheight : 0 ≤ nHeight ∧ nHeight < 2 ^ 30) (hc : Connectable txid m tx nHeight)
    (hview : s.view = connectView txid m tx nHeight) (fClean : Bool) :
    (spendOutputs scriptUsage txid tx nHeight s fClean).2 = fClean ∧
      (spendOutputs scriptUsage txid tx nHeight s fClean).1.Inv ∧
      (spendOutputs scriptUsage txid tx nHeight s fClean).1.view =
        updateAll m ((txSpends tx).map fun k => (k, none)) := by
  have hlist : ((tx.vout.zipIdx.filter fun e => !isUnspendable e.1.scriptPubKey).map fun e =>
      ((⟨txid tx, UInt32.ofNat e.2⟩ : COutPoint), (none : Option Coin))) =
      (txOutputs txid tx nHeight).map fun e => (e.1, none) := by
    rw [txOutputs, List.map_map]
    rfl
  have hkeys : ((tx.vout.zipIdx.filter fun e => !isUnspendable e.1.scriptPubKey).map fun e =>
      (⟨txid tx, UInt32.ofNat e.2⟩ : COutPoint)) = (txOutputs txid tx nHeight).map Prod.fst := by
    rw [txOutputs, List.map_map]
    rfl
  have hadded : (((txOutputs txid tx nHeight).map fun e => (e.1, some e.2)).map Prod.fst).Nodup := by
    rw [List.map_map]
    exact hc.outputs_nodup
  -- the view holds each output as the transaction made it
  obtain ⟨hf, hinv, hview'⟩ := spendOutputs_foldl_spec scriptUsage txid tx nHeight hheight tx.vout.zipIdx hs
    (hkeys ▸ hc.outputs_nodup) fun e he hu => by
      rw [hview, connectView]
      exact updateAll_apply_of_mem hadded (List.mem_map.mpr ⟨_, List.mem_map.mpr
        ⟨e, List.mem_filter.mpr ⟨he, by simp [hu]⟩, rfl⟩, rfl⟩)
  refine ⟨hf, hinv, ?_⟩
  rw [spendOutputs, hview', hview, connectView, hlist]
  -- the outputs were added over no coin, so spending them restores the view
  refine updateAll_restore (by rw [List.map_map]; exact hc.outputs_nodup)
    (fun k => by rw [List.map_map, List.map_map]; exact Iff.rfl) fun e he => ?_
  obtain ⟨o, ho, rfl⟩ := List.mem_map.mp he
  exact (Option.isNone_iff_eq_none.mp (hc.outputs_absent o ho)).symm

/-- `DisconnectBlock` on a transaction other than the coinbase, over the view
connecting it to `m` left and with its undo record: the view is `m` again,
and the loop goes on to the transaction before it, with `fClean` kept. -/
theorem disconnectTxs_cons_of_connectView (nHeight : Int) (hheight : 0 ≤ nHeight ∧ nHeight < 2 ^ 30)
    {vtxundo : List (List (Coins.Coin Coin))}
    {s : CacheView} (hs : s.Inv) {m : COutPoint → Option Coin} {tx : CTransaction} {i : Nat}
    (hcb : tx.isCoinBase = false) (hi : 0 < i) (hc : Connectable txid m tx nHeight)
    (hview : s.view = connectView txid m tx nHeight)
    (hundo : (vtxundo.getD (i - 1) []).map (·.out) = (txSpends tx).map m)
    (rest : List (CTransaction × Nat)) (fClean : Bool) :
    ∃ s', s'.Inv ∧ s'.view = m ∧
      disconnectTxs scriptUsage txid maxOutputsPerBlock nHeight vtxundo ((tx, i) :: rest) s fClean =
        disconnectTxs scriptUsage txid maxOutputsPerBlock nHeight vtxundo rest s' fClean := by
  obtain ⟨hf, hinv1, hview1⟩ := spendOutputs_connectView scriptUsage txid hs hheight hc hview fClean
  rcases hso : spendOutputs scriptUsage txid tx nHeight s fClean with ⟨s1, f1⟩
  rw [hso] at hf hinv1 hview1
  dsimp only at hf hinv1 hview1
  rw [hf] at hso
  have hspends : txSpends tx = tx.vin.map (·.prevout) := by simp [txSpends, hcb]
  rw [hspends, List.map_map] at hundo
  have hlen : (vtxundo.getD (i - 1) []).length = tx.vin.length := by
    simpa using congrArg List.length hundo
  -- the inputs are restored last first, each with the coin it spent
  have hmem : ∀ e ∈ (tx.vin.zip (vtxundo.getD (i - 1) [])).reverse,
      e.1.prevout ∈ txSpends tx ∧ e.2.out = m e.1.prevout := by
    rintro ⟨txin, undo⟩ he
    rw [List.mem_reverse] at he
    exact ⟨hspends ▸ List.mem_map_of_mem (List.of_mem_zip he).1, zip_apply_eq_of_map_eq hundo he⟩
  have hkeys : ((tx.vin.zip (vtxundo.getD (i - 1) [])).reverse.map fun e => e.1.prevout) = (txSpends tx).reverse := by
    rw [List.map_reverse, show (fun e : CTxIn × Coins.Coin Coin => e.1.prevout) = (·.prevout) ∘ Prod.fst from rfl,
      ← List.map_map, List.map_fst_zip hlen.ge, hspends]
  have hspent : ((((txSpends tx).map fun k => (k, (none : Option Coin)))).map Prod.fst).Nodup := by
    rw [map_fst_map_pair]
    exact hc.spends_nodup
  have hRnodup : ((tx.vin.zip (vtxundo.getD (i - 1) [])).reverse.map fun e => e.1.prevout).Nodup := by
    rw [hkeys]
    exact List.nodup_reverse.mpr hc.spends_nodup
  obtain ⟨s2, hrestore, hinv2, hview2⟩ := restoreInputs_spec scriptUsage maxOutputsPerBlock
    (tx.vin.zip (vtxundo.getD (i - 1) [])).reverse fClean hinv1 hRnodup
    (fun e he => by
      rw [hview1]
      exact updateAll_apply_of_mem hspent (List.mem_map.mpr ⟨e.1.prevout, (hmem e he).1, rfl⟩))
    fun e he => by
      rw [(hmem e he).2]
      exact hc.spends_restorable _ (hmem e he).1
  refine ⟨s2, hinv2, ?_, ?_⟩
  · -- the inputs were spent from `m`, so putting back what they spent restores it
    rw [hview2, hview1]
    refine updateAll_restore (by rw [List.map_map]; exact hRnodup) (fun k => ?_) fun e he => ?_
    · rw [List.map_map, List.map_map]
      show k ∈ (tx.vin.zip (vtxundo.getD (i - 1) [])).reverse.map (fun e => e.1.prevout) ↔ k ∈ (txSpends tx).map id
      rw [hkeys, List.mem_reverse, List.map_id]
    · obtain ⟨r, hr, rfl⟩ := List.mem_map.mp he
      exact (hmem r hr).2
  · simp only [disconnectTxs, hso, gt_iff_lt, hi, if_true, hlen, ne_eq, not_true_eq_false, if_false, hrestore,
      bind, Except.bind]

theorem disconnectTxs_cons_zero_of_connectView (nHeight : Int) (hheight : 0 ≤ nHeight ∧ nHeight < 2 ^ 30)
    (vtxundo : List (List (Coins.Coin Coin)))
    {s : CacheView} (hs : s.Inv) {m : COutPoint → Option Coin} {tx : CTransaction}
    (hcb : tx.isCoinBase = true) (hc : Connectable txid m tx nHeight) (hview : s.view = connectView txid m tx nHeight)
    (rest : List (CTransaction × Nat)) (fClean : Bool) :
    ∃ s', s'.Inv ∧ s'.view = m ∧
      disconnectTxs scriptUsage txid maxOutputsPerBlock nHeight vtxundo ((tx, 0) :: rest) s fClean =
        disconnectTxs scriptUsage txid maxOutputsPerBlock nHeight vtxundo rest s' fClean := by
  obtain ⟨hf, hinv1, hview1⟩ := spendOutputs_connectView scriptUsage txid hs hheight hc hview fClean
  rcases hso : spendOutputs scriptUsage txid tx nHeight s fClean with ⟨s1, f1⟩
  rw [hso] at hf hinv1 hview1
  dsimp only at hf hinv1 hview1
  rw [hf] at hso
  refine ⟨s1, hinv1, by rw [hview1, txSpends, if_pos hcb, List.map_nil, updateAll_nil], ?_⟩
  simp only [disconnectTxs, hso, gt_iff_lt, lt_irrefl, if_false]

end Disconnect

section Block

variable (txid : CTransaction → uint256) (maxOutputsPerBlock : Nat)

/-- `UpdateCoins` over transactions after the first, each `Connectable` in
turn: the view ends at `connectViews`, and the undo records hold the coins
`undoRecords` says. -/
theorem connectCoins_zipIdx_spec (nHeight : Int) :
    ∀ (txs : List CTransaction) {n : Nat} {s : CacheView}, 0 < n → s.Inv → BlockConnectable txid s.view nHeight txs →
      ∃ s' vtxundo, connectCoins scriptUsage txid nHeight (txs.zipIdx n) s = .ok (s', vtxundo) ∧ s'.Inv ∧
        s'.view = connectViews txid s.view nHeight txs ∧
        vtxundo.map (List.map (·.out)) = undoRecords txid s.view nHeight txs
  | [], _, s, _, hs, _ => ⟨s, [], rfl, hs, rfl, rfl⟩
  | tx :: txs, n, s, hn, hs, ⟨hc, hrest⟩ => by
    obtain ⟨s1, vprevout, hup, hinv1, hview1, hundo1⟩ := updateCoins_spec scriptUsage txid hs hc
    obtain ⟨s2, vtxundo, hcon, hinv2, hview2, hundo2⟩ :=
      connectCoins_zipIdx_spec nHeight txs (n := n + 1) (Nat.succ_pos n) hinv1 (hview1 ▸ hrest)
    refine ⟨s2, vprevout :: vtxundo, ?_, hinv2, by rw [hview2, hview1]; rfl, ?_⟩
    · simp only [List.zipIdx_cons, connectCoins, hup, hcon, bind, Except.bind, gt_iff_lt, hn, if_true]
    · rw [List.map_cons, hundo1, hundo2, hview1, undoRecords]

/-- `DisconnectBlock`'s loop over transactions after the first, last first,
on the view they connected to `m` and with their undo records from index
`n - 1` on: the view is `m` again, and the loop goes on to what came before
them, with `fClean` kept. The induction is on the transactions; the undo of
the first, which comes last, is peeled off after the rest. -/
theorem disconnectTxs_zipIdx_reverse (nHeight : Int) (hheight : 0 ≤ nHeight ∧ nHeight < 2 ^ 30)
    (vtxundo : List (List (Coins.Coin Coin))) :
    ∀ (txs : List CTransaction) {n : Nat} {m : COutPoint → Option Coin} {s : CacheView}
      (B : List (CTransaction × Nat)) (fClean : Bool), 0 < n → s.Inv → (∀ tx ∈ txs, tx.isCoinBase = false) →
      BlockConnectable txid m nHeight txs → s.view = connectViews txid m nHeight txs →
      (∀ j, (vtxundo.getD (n - 1 + j) []).map (·.out) = (undoRecords txid m nHeight txs).getD j []) →
      ∃ s', s'.Inv ∧ s'.view = m ∧
        disconnectTxs scriptUsage txid maxOutputsPerBlock nHeight vtxundo ((txs.zipIdx n).reverse ++ B) s fClean =
          disconnectTxs scriptUsage txid maxOutputsPerBlock nHeight vtxundo B s' fClean
  | [], _, _, s, _, _, _, hs, _, _, hview, _ => ⟨s, hs, hview, rfl⟩
  | tx :: txs, n, m, s, B, fClean, hn, hs, hcb, ⟨hc, hrest⟩, hview, hundo => by
    rw [List.zipIdx_cons, List.reverse_cons, List.append_assoc, List.singleton_append]
    -- first the transactions after `tx`, from the view `tx` left
    obtain ⟨s1, hinv1, hview1, h1⟩ := disconnectTxs_zipIdx_reverse nHeight hheight vtxundo txs (n := n + 1)
      ((tx, n) :: B) fClean (Nat.succ_pos n) hs (fun t ht => hcb t (List.mem_cons_of_mem _ ht)) hrest hview
      fun j => by rw [show n + 1 - 1 + j = n - 1 + (j + 1) by omega, hundo (j + 1), undoRecords, List.getD_cons_succ]
    -- then `tx` itself, with its own undo record
    have hundo0 : (vtxundo.getD (n - 1) []).map (·.out) = (txSpends tx).map m := by
      rw [← Nat.add_zero (n - 1), hundo 0, undoRecords, List.getD_cons_zero]
    obtain ⟨s2, hinv2, hview2, h2⟩ := disconnectTxs_cons_of_connectView scriptUsage txid maxOutputsPerBlock nHeight
      hheight hinv1 (hcb tx List.mem_cons_self) hn hc hview1 hundo0 B fClean
    exact ⟨s2, hinv2, hview2, h1.trans h2⟩

theorem checkBlock_coinbase {block : CBlock} (h : checkBlock block = .ok ()) :
    ∃ cb rest, block.vtx = cb :: rest ∧ cb.isCoinBase = true ∧ ∀ tx ∈ rest, tx.isCoinBase = false := by
  unfold checkBlock at h
  rcases hv : block.vtx with _ | ⟨cb, rest⟩
  · rw [hv] at h
    cases h
  · rw [hv] at h
    -- each check that fails throws, which is not `.ok ()`
    have hcb : cb.isCoinBase = true := by
      cases hcb : cb.isCoinBase
      · simp [hcb] at h
        cases h
      · rfl
    have hany : rest.any (·.isCoinBase) = false := by
      cases hany : rest.any (·.isCoinBase)
      · rfl
      · simp [hcb, hany] at h
        cases h
    refine ⟨cb, rest, rfl, hcb, fun tx htx => ?_⟩
    simpa using List.any_eq_false.mp hany tx htx

/-- Connecting a block `CheckBlock` accepts, whose transactions are each
`Connectable` on the coins those before it leave, through the calls of
`UpdateCoins` in `ConnectBlock`, and disconnecting it with the undo data
those calls wrote, gives back the coins it was connected to, and
`DisconnectBlock` reports the undo clean: what a reorganisation relies on.
The height fits the coin's 30-bit `nHeight` field (`coins.h`), where the
coins' heights are kept here as integers. -/
theorem disconnectBlock_undoes_connectCoins {s : CacheView} (hs : s.Inv) {block : CBlock} {nHeight : Int}
    (hheight : 0 ≤ nHeight ∧ nHeight < 2 ^ 30)
    (hcheck : checkBlock block = .ok ()) (hc : BlockConnectable txid s.view nHeight block.vtx) :
    ∃ s1 blockUndo, connectCoins scriptUsage txid nHeight block.vtx.zipIdx s = .ok (s1, blockUndo) ∧
      s1.view = connectViews txid s.view nHeight block.vtx ∧
      ∃ s2, disconnectBlock scriptUsage txid maxOutputsPerBlock block nHeight blockUndo s1 =
        .ok (s2, .DISCONNECT_OK) ∧ s2.Inv ∧ s2.view = s.view := by
  obtain ⟨cb, rest, hv, hcb, hrest⟩ := checkBlock_coinbase hcheck
  rw [hv] at hc
  obtain ⟨hccb, hcrest⟩ := hc
  -- connecting: the coinbase, whose undo record is not kept, then the rest
  obtain ⟨s0, vprevout, hup, hinv0, hview0, -⟩ := updateCoins_spec scriptUsage txid hs hccb
  obtain ⟨s1, vtxundo, hcon, hinv1, hview1, hundo⟩ :=
    connectCoins_zipIdx_spec scriptUsage txid nHeight rest (n := 1) Nat.one_pos hinv0 (hview0 ▸ hcrest)
  refine ⟨s1, vtxundo, ?_, by rw [hview1, hview0, hv]; rfl, ?_⟩
  · simp only [hv, List.zipIdx_cons, connectCoins, hup, hcon, bind, Except.bind, gt_iff_lt, lt_irrefl, if_false]
  -- disconnecting: the rest, last first, then the coinbase
  have hlen : vtxundo.length + 1 = block.vtx.length := by
    rw [hv, List.length_cons, ← List.length_map (List.map (·.out)), hundo, length_undoRecords]
  obtain ⟨s2, hinv2, hview2, h2⟩ := disconnectTxs_zipIdx_reverse scriptUsage txid maxOutputsPerBlock nHeight hheight vtxundo
    rest [(cb, 0)] true Nat.one_pos hinv1 hrest hcrest (by rw [hview1, hview0]) fun j => by
      rw [Nat.sub_self, Nat.zero_add, ← hview0, ← hundo]
      exact (List.getD_map vtxundo [] (List.map (·.out))).symm
  obtain ⟨s3, hinv3, hview3, h3⟩ := disconnectTxs_cons_zero_of_connectView scriptUsage txid maxOutputsPerBlock
    nHeight hheight vtxundo hinv2 hcb hccb hview2 [] true
  refine ⟨s3, ?_, hinv3, hview3⟩
  rw [disconnectBlock, if_neg (not_not.mpr hlen), hv, List.zipIdx_cons, List.reverse_cons, h2, h3]
  rfl

end Block

end Spec

/-- A block of a coinbase and one transaction spending the one coin of the
database, its transactions hashed by their lock time. -/
def spendBlock : CBlock :=
  ⟨⟨uint256.zero, 0xffffffff⟩, false,
    [⟨1, [⟨⟨uint256.zero, 0xffffffff⟩, [], 0⟩], [⟨50, []⟩], 1⟩,
     ⟨1, [⟨⟨⟨List.replicate 32 7, List.length_replicate⟩, 0⟩, [], 0⟩], [⟨5, []⟩], 2⟩]⟩

def spendBlockTxid (tx : CTransaction) : uint256 := ⟨List.replicate 32 tx.nLockTime.toUInt8, List.length_replicate⟩

def spendBlockCoins : CacheView :=
  ⟨OrderedStore.empty.write ⟨⟨List.replicate 32 7, List.length_replicate⟩, 0⟩ ⟨⟨5, []⟩, 1, false, false⟩, .empty, []⟩

theorem disconnectBlock_undoes_connectCoins_of_spendBlock :
    spendBlockCoins.Inv ∧ (0 ≤ (3 : Int) ∧ (3 : Int) < 2 ^ 30) ∧ checkBlock spendBlock = .ok () ∧
      BlockConnectable spendBlockTxid spendBlockCoins.view 3 spendBlock.vtx ∧
    ∃ s1 blockUndo, connectCoins (fun _ => 0) spendBlockTxid 3 spendBlock.vtx.zipIdx spendBlockCoins =
        .ok (s1, blockUndo) ∧
      s1.view = connectViews spendBlockTxid spendBlockCoins.view 3 spendBlock.vtx ∧
      ∃ s2, disconnectBlock (fun _ => 0) spendBlockTxid 100 spendBlock 3 blockUndo s1 = .ok (s2, .DISCONNECT_OK) ∧
        s2.Inv ∧ s2.view = spendBlockCoins.view := by
  have hs : spendBlockCoins.Inv := ⟨flagsInv_empty _, trivial⟩
  have hcheck : checkBlock spendBlock = .ok () := by decide
  have hc : BlockConnectable spendBlockTxid spendBlockCoins.view 3 spendBlock.vtx := by decide
  have hheight : 0 ≤ (3 : Int) ∧ (3 : Int) < 2 ^ 30 := by decide
  exact ⟨hs, hheight, hcheck, hc,
    disconnectBlock_undoes_connectCoins (fun _ => 0) spendBlockTxid 100 hs hheight hcheck hc⟩

end YuPost.Validation.Undo
