import Mathlib
import YuPost.Lib.OrderedStore
import YuPost.State.ChangeLog
import YuPost.Primitives.Transaction

/-! `CondensingTX` of `yupost/yupoststate.cpp`: after a contract execution the
value transfers it recorded are condensed into one transaction that spends the
coins (`Vin`s) of the addresses involved and pays each its new balance, and
`YuPostState::updateUTXO` then records the new coins.

The maps of the source are `std::map`s ordered by address, kept here as
`OrderedStore`s whose entries are iterated in order. Balances are
`dev::u256`: sums wrap modulo `2 ^ 256`. What lies outside the repository is a
parameter: whether an address is a live contract account (`state->account`),
the conversion `CAmount(dev::u256)` of Boost.Multiprecision (`amountOf`), and
`CTransaction::GetHash` (`getHash`). The map `createVin` returns is an
`std::unordered_map`; `updateUTXO` touches each address once, so the order in
which it is read does not matter, and it is read in address order here. -/

namespace YuPost.State

open YuPost.Lib YuPost.Primitives YuPost.Script

/-- `Vin`: the coin holding an address's balance, and whether it is alive. -/
structure Vin where
  hash : uint256
  nVout : UInt32
  value : Nat
  alive : UInt8
deriving DecidableEq

/-- `Vin{}` value-initialized, as `std::map::operator[]` inserts it. -/
def Vin.default : Vin := ⟨uint256.zero, 0, 0, 0⟩

/-- The parts of the executing `YuPostTransaction` that condensing reads. -/
structure ExecTx where
  sender : Address
  value : Nat
  hashWith : uint256
  nVout : UInt32

def MAX_CONTRACT_VOUTS : Nat := 1000

def SEQUENCE_FINAL : UInt32 := 0xffffffff

/-- `CTransaction()`: version `CURRENT_VERSION`, no inputs, no outputs. -/
def emptyTransaction : CTransaction := ⟨2, [], [], 0⟩

/-- `dev::u256` addition. -/
def u256Add (a b : Nat) : Nat := (a + b) % 2 ^ 256

/-- The contract coins of `YuPostState`: `vin` reads the cache, then the
committed coins. -/
structure UTXOState where
  cacheUTXO : Address → Option Vin
  stateUTXO : Address → Option Vin

/-- `YuPostState::vin`. -/
def UTXOState.vin (s : UTXOState) (a : Address) : Option Vin := (s.cacheUTXO a).or (s.stateUTXO a)

/-- One turn of `selectionVin`: the first time an address is met as a sender
its coin is read from the state, and replaced by the transaction's own output
when it is the transaction's sender sending value; the first time as a
receiver, its coin is read from the state. -/
def selectionStep (s : UTXOState) (transaction : ExecTx) (vins : OrderedStore Address Vin)
    (ti : TransferInfo) : OrderedStore Address Vin :=
  let vins :=
    if (vins.get? ti.sender).isSome then vins
    else
      let vins := match s.vin ti.sender with
        | some a => vins.write ti.sender a
        | none => vins
      if ti.sender = transaction.sender ∧ transaction.value > 0 then
        vins.write ti.sender ⟨transaction.hashWith, transaction.nVout, transaction.value, 1⟩
      else vins
  if (vins.get? ti.receiver).isSome then vins
  else match s.vin ti.receiver with
    | some a => vins.write ti.receiver a
    | none => vins

def selectionVin (s : UTXOState) (transaction : ExecTx) (transfers : List TransferInfo) :
    OrderedStore Address Vin :=
  transfers.foldl (selectionStep s transaction) .empty

/-- One turn of `calculatePlusAndMinus`: the value is added to what the sender
pays out and to what the receiver takes in. -/
def plusMinusStep (plusMinusInfo : OrderedStore Address (Nat × Nat)) (ti : TransferInfo) :
    OrderedStore Address (Nat × Nat) :=
  let plusMinusInfo := match plusMinusInfo.get? ti.sender with
    | none => plusMinusInfo.write ti.sender (0, ti.value)
    | some (plus, minus) => plusMinusInfo.write ti.sender (plus, u256Add minus ti.value)
  match plusMinusInfo.get? ti.receiver with
  | none => plusMinusInfo.write ti.receiver (ti.value, 0)
  | some (plus, minus) => plusMinusInfo.write ti.receiver (u256Add plus ti.value, minus)

def calculatePlusAndMinus (transfers : List TransferInfo) : OrderedStore Address (Nat × Nat) :=
  transfers.foldl plusMinusStep .empty

/-- What `createNewBalances` leaves: whether every address could pay, the
balances written so far, and `vins` with the entries `operator[]` added. -/
structure NewBalances where
  ok : Bool
  balances : OrderedStore Address Nat
  vins : OrderedStore Address Vin

/-- The loop of `createNewBalances` over `plusMinusInfo`. An address's coin
counts when it is alive, or dead but not deleted; `vins[a]` inserts an empty
coin for an address that has none, which only the second test reaches. -/
def createNewBalancesLoop (deleted : Address → Bool) :
    List (Address × (Nat × Nat)) → OrderedStore Address Vin → OrderedStore Address Nat → NewBalances
  | [], vins, balances => ⟨true, balances, vins⟩
  | (a, (plus, minus)) :: rest, vins, balances =>
    let present := (vins.get? a).isSome
    let vins := if present then vins else vins.write a Vin.default
    let v := (vins.get? a).getD Vin.default
    let balance := if (present && v.alive != 0) || (v.alive == 0 && !deleted a) then v.value else 0
    let balance := u256Add balance plus
    if balance < minus then ⟨false, balances, vins⟩
    else createNewBalancesLoop deleted rest vins (balances.write a (balance - minus))

/-- `createVins`: an input spending each coin of positive value that is alive,
or dead but not deleted. -/
def createVins (deleted : Address → Bool) (vins : OrderedStore Address Vin) : List CTxIn :=
  vins.entries.filterMap fun (a, v) =>
    if (v.value > 0 && v.alive != 0) || (v.value > 0 && v.alive == 0 && !deleted a) then
      some ⟨⟨v.hash, v.nVout⟩, [OP_SPEND], SEQUENCE_FINAL⟩
    else none

/-- The script `createVout` pays a balance to: a call that does not execute for
a live contract account, pay to the key hash otherwise. -/
def condensedScript (isAliveAccount : Address → Bool) (a : Address) : CScript :=
  if isAliveAccount a then pushData [0] ++ pushData [0] ++ pushData [0] ++ pushData [0] ++ pushData a ++ [OP_CALL]
  else [OP_DUP, OP_HASH160] ++ pushData a ++ [OP_EQUALVERIFY, OP_CHECKSIG]

/-- What `createVout` leaves: the outputs, the output index of each address
paid, and whether the outputs passed `MAX_CONTRACT_VOUTS`. -/
structure Vouts where
  outs : List CTxOut
  nVouts : OrderedStore Address UInt32
  voutOverflow : Bool

/-- The loop of `createVout` over `balances`: an output for each positive
balance, its index noted, and a stop once more than `MAX_CONTRACT_VOUTS`
outputs are made. -/
def createVoutLoop (isAliveAccount : Address → Bool) (amountOf : Nat → Int64) :
    List (Address × Nat) → Nat → List CTxOut → OrderedStore Address UInt32 → Vouts
  | [], _, outs, nVouts => ⟨outs, nVouts, false⟩
  | (a, b) :: rest, count, outs, nVouts =>
    if b > 0 then
      let outs := outs ++ [⟨amountOf b, condensedScript isAliveAccount a⟩]
      let nVouts := nVouts.write a (UInt32.ofNat count)
      let count := count + 1
      if count > MAX_CONTRACT_VOUTS then ⟨outs, nVouts, true⟩
      else createVoutLoop isAliveAccount amountOf rest count outs nVouts
    else if count > MAX_CONTRACT_VOUTS then ⟨outs, nVouts, true⟩
    else createVoutLoop isAliveAccount amountOf rest count outs nVouts

/-- What a `CondensingTX` holds after `createCondensingTX`: the transaction it
returns and the maps `createVin` and `reachedVoutLimit` read. -/
structure Condensed where
  tx : CTransaction
  balances : OrderedStore Address Nat
  nVouts : OrderedStore Address UInt32
  voutOverflow : Bool

section Condense

variable (s : UTXOState) (isAliveAccount : Address → Bool) (amountOf : Nat → Int64)
  (transfers : List TransferInfo) (deleted : Address → Bool) (transaction : ExecTx)

/-- `createCondensingTX`, with `deleted` the test of `deleteAddresses`. -/
def createCondensingTX : Condensed :=
  let vins := selectionVin s transaction transfers
  let plusMinusInfo := calculatePlusAndMinus transfers
  let newBalances := createNewBalancesLoop deleted plusMinusInfo.entries vins .empty
  if !newBalances.ok then ⟨emptyTransaction, newBalances.balances, .empty, false⟩
  else
    let vin := createVins deleted newBalances.vins
    let vouts := createVoutLoop isAliveAccount amountOf newBalances.balances.entries 0 [] .empty
    let tx := if vin.isEmpty || vouts.outs.isEmpty then emptyTransaction else ⟨2, vin, vouts.outs, 0⟩
    ⟨tx, newBalances.balances, vouts.nVouts, vouts.voutOverflow⟩

theorem createCondensingTX_of_ne_empty
    (hne : (createCondensingTX s isAliveAccount amountOf transfers deleted transaction).tx ≠ emptyTransaction) :
    let newBalances := createNewBalancesLoop deleted (calculatePlusAndMinus transfers).entries
      (selectionVin s transaction transfers) .empty
    let vouts := createVoutLoop isAliveAccount amountOf newBalances.balances.entries 0 [] .empty
    newBalances.ok = true ∧ createCondensingTX s isAliveAccount amountOf transfers deleted transaction =
      ⟨⟨2, createVins deleted newBalances.vins, vouts.outs, 0⟩, newBalances.balances, vouts.nVouts,
        vouts.voutOverflow⟩ := by
  dsimp only
  unfold createCondensingTX at hne ⊢
  dsimp only at hne ⊢
  generalize createNewBalancesLoop deleted (calculatePlusAndMinus transfers).entries
    (selectionVin s transaction transfers) .empty = newBalances at hne ⊢
  cases hok : newBalances.ok
  · -- a failed `createNewBalances` returns `CTransaction()`
    simp [hok] at hne
  · simp only [hok, Bool.not_true, Bool.false_eq_true, if_false] at hne ⊢
    split_ifs at hne ⊢
    · exact absurd rfl hne
    · exact ⟨trivial, rfl⟩

end Condense

/-- `createVin`: the new coin of each address but the sender, at its output
when its balance is positive and dead otherwise. -/
def createVin (getHash : CTransaction → uint256) (ctx : Condensed) (sender : Address) (tx : CTransaction) :
    OrderedStore Address Vin :=
  ctx.balances.entries.foldl (fun vins (a, b) =>
    if a = sender then vins
    else if b > 0 then vins.write a ⟨getHash tx, (ctx.nVouts.get? a).getD 0, b, 1⟩
    else vins.write a ⟨getHash tx, 0, 0, 0⟩) .empty

/-- One entry of `updateUTXO`: an address with a coin has it overwritten, one
without gets the new coin when that is alive. -/
def updateUTXOStep (s : UTXOState) (e : Address × Vin) : UTXOState :=
  if (s.vin e.1).isSome || e.2.alive > 0 then { s with cacheUTXO := Function.update s.cacheUTXO e.1 (some e.2) }
  else s

def updateUTXO (s : UTXOState) (vins : OrderedStore Address Vin) : UTXOState :=
  vins.entries.foldl updateUTXOStep s

section Keys

theorem isSome_get?_plusMinusStep (plusMinusInfo : OrderedStore Address (Nat × Nat)) (ti : TransferInfo)
    (k : Address) :
    ((plusMinusStep plusMinusInfo ti).get? k).isSome ↔
      (plusMinusInfo.get? k).isSome ∨ k = ti.sender ∨ k = ti.receiver := by
  unfold plusMinusStep
  cases plusMinusInfo.get? ti.sender <;>
  · dsimp only
    split <;> · by_cases h1 : k = ti.receiver <;> by_cases h2 : k = ti.sender <;> simp_all

theorem isSome_get?_foldl_plusMinusStep (transfers : List TransferInfo)
    (plusMinusInfo : OrderedStore Address (Nat × Nat)) (k : Address) :
    ((transfers.foldl plusMinusStep plusMinusInfo).get? k).isSome ↔
      (plusMinusInfo.get? k).isSome ∨ ∃ ti ∈ transfers, k = ti.sender ∨ k = ti.receiver := by
  induction transfers generalizing plusMinusInfo with
  | nil => simp
  | cons ti rest ih =>
    rw [List.foldl_cons, ih, isSome_get?_plusMinusStep]
    simp only [List.mem_cons, exists_eq_or_imp, or_assoc]

theorem isSome_get?_calculatePlusAndMinus {transfers : List TransferInfo} {ti : TransferInfo}
    (hti : ti ∈ transfers) {k : Address} (hk : k = ti.sender ∨ k = ti.receiver) :
    ((calculatePlusAndMinus transfers).get? k).isSome :=
  (isSome_get?_foldl_plusMinusStep transfers .empty k).mpr (.inr ⟨ti, hti, hk⟩)

theorem get?_selectionStep_of_ne (s : UTXOState) (transaction : ExecTx) (vins : OrderedStore Address Vin)
    (ti : TransferInfo) {k : Address} (hks : k ≠ ti.sender) (hkr : k ≠ ti.receiver) :
    (selectionStep s transaction vins ti).get? k = vins.get? k := by
  unfold selectionStep
  dsimp only
  split_ifs <;> (try split) <;> (try split) <;> simp [hks, hkr]

theorem isSome_get?_selectionVin (s : UTXOState) (transaction : ExecTx) (transfers : List TransferInfo)
    (vins : OrderedStore Address Vin) (k : Address) :
    ((transfers.foldl (selectionStep s transaction) vins).get? k).isSome →
      (vins.get? k).isSome ∨ ∃ ti ∈ transfers, k = ti.sender ∨ k = ti.receiver := by
  induction transfers generalizing vins with
  | nil => exact .inl
  | cons ti rest ih =>
    intro hk
    rcases ih _ hk with hsel | ⟨t, ht, htk⟩
    · by_cases hks : k = ti.sender
      · exact .inr ⟨ti, List.mem_cons_self, .inl hks⟩
      by_cases hkr : k = ti.receiver
      · exact .inr ⟨ti, List.mem_cons_self, .inr hkr⟩
      rw [get?_selectionStep_of_ne s transaction vins ti hks hkr] at hsel
      exact .inl hsel
    · exact .inr ⟨t, List.mem_cons_of_mem _ ht, htk⟩

/-- The coin value that counts toward an address's funds: that of a coin
alive, or dead but not deleted; nothing without a coin. -/
def countedValue (deleted : Address → Bool) (vins : OrderedStore Address Vin) (a : Address) : Nat :=
  match vins.get? a with
  | some v => if v.alive ≠ 0 ∨ deleted a = false then v.value else 0
  | none => 0

/-- `vins` after `vins[a]`. -/
def withEntry (vins : OrderedStore Address Vin) (a : Address) : OrderedStore Address Vin :=
  if (vins.get? a).isSome then vins else vins.write a Vin.default

theorem createNewBalancesLoop_cons (deleted : Address → Bool) (a : Address) (plus minus : Nat)
    (rest : List (Address × (Nat × Nat))) (vins : OrderedStore Address Vin) (balances : OrderedStore Address Nat) :
    createNewBalancesLoop deleted ((a, (plus, minus)) :: rest) vins balances =
      if u256Add (countedValue deleted vins a) plus < minus then ⟨false, balances, withEntry vins a⟩
      else createNewBalancesLoop deleted rest (withEntry vins a)
        (balances.write a (u256Add (countedValue deleted vins a) plus - minus)) := by
  simp only [createNewBalancesLoop]
  unfold countedValue withEntry
  cases hv : vins.get? a with
  | none => cases deleted a <;> simp [Vin.default]
  | some v =>
    by_cases halive : v.alive = 0 <;> cases deleted a <;> simp [hv, halive]

theorem countedValue_withEntry (deleted : Address → Bool) (vins : OrderedStore Address Vin) (a k : Address) :
    countedValue deleted (withEntry vins a) k = countedValue deleted vins k := by
  unfold withEntry
  split
  · rfl
  · by_cases hk : k = a
    · subst hk
      unfold countedValue
      rw [OrderedStore.get?_write, if_pos rfl]
      cases hv : vins.get? k <;> simp_all [Vin.default]
    · unfold countedValue
      rw [OrderedStore.get?_write, if_neg hk]

theorem createNewBalancesLoop_balances (deleted : Address → Bool) :
    ∀ (l : List (Address × (Nat × Nat))) (vins : OrderedStore Address Vin) (balances : OrderedStore Address Nat),
      (createNewBalancesLoop deleted l vins balances).ok = true → ∀ k,
        (((createNewBalancesLoop deleted l vins balances).balances.get? k).isSome ↔
          (balances.get? k).isSome ∨ ∃ e ∈ l, k = e.1)
  | [], vins, balances, _, k => by simp [createNewBalancesLoop]
  | (a, (plus, minus)) :: rest, vins, balances, hok, k => by
    rw [createNewBalancesLoop_cons] at hok ⊢
    by_cases hlt : u256Add (countedValue deleted vins a) plus < minus
    · rw [if_pos hlt] at hok
      cases hok
    · rw [if_neg hlt] at hok ⊢
      rw [createNewBalancesLoop_balances deleted rest _ _ hok k, OrderedStore.get?_write]
      by_cases h : k = a <;> simp [h]

end Keys

section Balances

variable (deleted : Address → Bool)

theorem createNewBalancesLoop_ok_iff : ∀ (l : List (Address × (Nat × Nat))) (vins : OrderedStore Address Vin)
    (balances : OrderedStore Address Nat),
    (createNewBalancesLoop deleted l vins balances).ok = true ↔
      ∀ e ∈ l, e.2.2 ≤ u256Add (countedValue deleted vins e.1) e.2.1
  | [], _, _ => by simp [createNewBalancesLoop]
  | (a, (plus, minus)) :: rest, vins, balances => by
    rw [createNewBalancesLoop_cons]
    by_cases hlt : u256Add (countedValue deleted vins a) plus < minus
    · rw [if_pos hlt]
      exact iff_of_false Bool.false_ne_true fun h => absurd (h _ List.mem_cons_self) (not_le.mpr hlt)
    · -- the loop goes on with the same counted values
      rw [if_neg hlt, createNewBalancesLoop_ok_iff rest, List.forall_mem_cons]
      simp only [countedValue_withEntry]
      exact ⟨fun h => ⟨not_lt.mp hlt, h⟩, fun h => h.2⟩

theorem get?_createNewBalancesLoop_balances : ∀ (l : List (Address × (Nat × Nat)))
    (hl : l.Pairwise (fun a b => a.1 < b.1)) (vins : OrderedStore Address Vin) (balances : OrderedStore Address Nat),
    (createNewBalancesLoop deleted l vins balances).ok = true → ∀ k,
      (createNewBalancesLoop deleted l vins balances).balances.get? k =
        ((⟨l, hl⟩ : OrderedStore Address (Nat × Nat)).get? k).elim (balances.get? k)
          (fun pm => some (u256Add (countedValue deleted vins k) pm.1 - pm.2))
  | [], _, _, _, _, _ => rfl
  | (a, (plus, minus)) :: rest, hl, vins, balances, hok, k => by
    rw [createNewBalancesLoop_cons] at hok ⊢
    by_cases hlt : u256Add (countedValue deleted vins a) plus < minus
    · rw [if_pos hlt] at hok
      cases hok
    rw [if_neg hlt] at hok ⊢
    rw [get?_createNewBalancesLoop_balances rest hl.of_cons _ _ hok k, OrderedStore.get?_write]
    unfold OrderedStore.get?
    rw [OrderedStore.lookup_cons_eq_ite]
    by_cases hk : k = a
    · -- the key is written here and nowhere later
      subst hk
      rw [OrderedStore.lookup_eq_none_of_lt fun e he => List.rel_of_pairwise_cons hl he]
      simp [countedValue_withEntry]
    · simp [hk, countedValue_withEntry]

theorem createVins_withEntry (vins : OrderedStore Address Vin) (a : Address) :
    createVins deleted (withEntry vins a) = createVins deleted vins := by
  unfold withEntry
  by_cases ha : (vins.get? a).isSome
  · rw [if_pos ha]
  · rw [if_neg ha]
    apply OrderedStore.filterMap_insertEntry_of_none
    · exact Option.not_isSome_iff_eq_none.mp ha
    · simp [Vin.default]

theorem createVins_createNewBalancesLoop_vins : ∀ (l : List (Address × (Nat × Nat)))
    (vins : OrderedStore Address Vin) (balances : OrderedStore Address Nat),
    createVins deleted (createNewBalancesLoop deleted l vins balances).vins = createVins deleted vins
  | [], _, _ => rfl
  | (a, (plus, minus)) :: rest, vins, balances => by
    rw [createNewBalancesLoop_cons]
    split_ifs
    · exact createVins_withEntry deleted vins a
    · rw [createVins_createNewBalancesLoop_vins rest, createVins_withEntry]

end Balances

section Vouts

variable (isAliveAccount : Address → Bool) (amountOf : Nat → Int64)

theorem createVoutLoop_cons_pos {a : Address} {b : Nat} (hb : 0 < b) (rest : List (Address × Nat)) (count : Nat)
    (outs : List CTxOut) (nVouts : OrderedStore Address UInt32) :
    createVoutLoop isAliveAccount amountOf ((a, b) :: rest) count outs nVouts =
      if count + 1 > MAX_CONTRACT_VOUTS then
        ⟨outs ++ [⟨amountOf b, condensedScript isAliveAccount a⟩], nVouts.write a (UInt32.ofNat count), true⟩
      else createVoutLoop isAliveAccount amountOf rest (count + 1)
        (outs ++ [⟨amountOf b, condensedScript isAliveAccount a⟩]) (nVouts.write a (UInt32.ofNat count)) := by
  simp only [createVoutLoop, if_pos hb]

theorem createVoutLoop_cons_zero (a : Address) (rest : List (Address × Nat)) (count : Nat)
    (outs : List CTxOut) (nVouts : OrderedStore Address UInt32) :
    createVoutLoop isAliveAccount amountOf ((a, 0) :: rest) count outs nVouts =
      if count > MAX_CONTRACT_VOUTS then ⟨outs, nVouts, true⟩
      else createVoutLoop isAliveAccount amountOf rest count outs nVouts := by
  simp only [createVoutLoop, gt_iff_lt, Nat.lt_irrefl, if_false]

/-- A run of `createVout` within `MAX_CONTRACT_VOUTS` outputs keeps the
outputs made before it, leaves the index of every other address, and gives
each positive balance among its entries an index whose output pays that
balance to that address. Induction on the entries: their keys increase, so no
index is written over another. -/
theorem createVoutLoop_spec : ∀ (l : List (Address × Nat)) (count : Nat) (outs : List CTxOut)
    (nVouts : OrderedStore Address UInt32), l.Pairwise (fun a b => a.1 < b.1) → outs.length = count →
    (∀ e ∈ l, nVouts.get? e.1 = none) →
    (createVoutLoop isAliveAccount amountOf l count outs nVouts).voutOverflow = false →
    outs <+: (createVoutLoop isAliveAccount amountOf l count outs nVouts).outs ∧
    (∀ k, (∀ e ∈ l, e.1 ≠ k) →
      (createVoutLoop isAliveAccount amountOf l count outs nVouts).nVouts.get? k = nVouts.get? k) ∧
    ∀ e ∈ l, 0 < e.2 → ∃ n : UInt32,
      (createVoutLoop isAliveAccount amountOf l count outs nVouts).nVouts.get? e.1 = some n ∧
      (createVoutLoop isAliveAccount amountOf l count outs nVouts).outs[n.toNat]? =
        some ⟨amountOf e.2, condensedScript isAliveAccount e.1⟩
  | [], _, _, _, _, _, _, _ => ⟨List.prefix_refl _, fun _ _ => rfl, fun _ he => absurd he List.not_mem_nil⟩
  | (a, b) :: rest, count, outs, nVouts, hsorted, hlen, hfresh, hover => by
    -- every later key is above `a`
    have hlater : ∀ e ∈ rest, e.1 ≠ a := fun e he => ne_of_gt (List.rel_of_pairwise_cons hsorted he)
    rcases Nat.eq_zero_or_pos b with rfl | hb
    · -- a zero balance is passed over
      rw [createVoutLoop_cons_zero] at hover ⊢
      by_cases hmax : count > MAX_CONTRACT_VOUTS
      · rw [if_pos hmax] at hover
        cases hover
      rw [if_neg hmax] at hover ⊢
      obtain ⟨hpre, hframe, hpaid⟩ := createVoutLoop_spec rest count outs nVouts hsorted.of_cons hlen
        (fun e he => hfresh e (List.mem_cons_of_mem _ he)) hover
      refine ⟨hpre, fun k hk => hframe k fun e he => hk e (List.mem_cons_of_mem _ he), fun e he hpos => ?_⟩
      rcases List.mem_cons.mp he with rfl | hmem
      · exact absurd hpos (Nat.lt_irrefl 0)
      · exact hpaid e hmem hpos
    · -- a positive balance is paid at index `count`
      rw [createVoutLoop_cons_pos isAliveAccount amountOf hb] at hover ⊢
      by_cases hmax : count + 1 > MAX_CONTRACT_VOUTS
      · rw [if_pos hmax] at hover
        cases hover
      rw [if_neg hmax] at hover ⊢
      obtain ⟨hpre, hframe, hpaid⟩ := createVoutLoop_spec rest (count + 1)
        (outs ++ [⟨amountOf b, condensedScript isAliveAccount a⟩]) (nVouts.write a (UInt32.ofNat count))
        hsorted.of_cons (by simp [hlen])
        (fun e he => by
          rw [OrderedStore.get?_write, if_neg (hlater e he)]
          exact hfresh e (List.mem_cons_of_mem _ he))
        hover
      refine ⟨(List.prefix_append _ _).trans hpre, fun k hk => ?_, fun e he hpos => ?_⟩
      · rw [hframe k fun e he => hk e (List.mem_cons_of_mem _ he), OrderedStore.get?_write,
          if_neg (Ne.symm (hk (a, b) List.mem_cons_self))]
      · rcases List.mem_cons.mp he with rfl | hmem
        · refine ⟨UInt32.ofNat count, ?_, ?_⟩
          · rw [hframe _ hlater, OrderedStore.get?_write, if_pos rfl]
          · have htoNat : (UInt32.ofNat count).toNat = count :=
              UInt32.toNat_ofNat_of_lt' (by unfold MAX_CONTRACT_VOUTS at hmax; simp [UInt32.size]; omega)
            obtain ⟨t, ht⟩ := hpre
            rw [htoNat, ← ht, ← hlen]
            simp
        · exact hpaid e hmem hpos

theorem createVoutLoop_outs : ∀ (l : List (Address × Nat)) (count : Nat) (outs : List CTxOut)
    (nVouts : OrderedStore Address UInt32),
    (createVoutLoop isAliveAccount amountOf l count outs nVouts).voutOverflow = false →
    (createVoutLoop isAliveAccount amountOf l count outs nVouts).outs =
      outs ++ (l.filter (0 < ·.2)).map fun e => ⟨amountOf e.2, condensedScript isAliveAccount e.1⟩
  | [], _, _, _, _ => by simp [createVoutLoop]
  | (a, b) :: rest, count, outs, nVouts, hover => by
    rcases Nat.eq_zero_or_pos b with rfl | hb
    · rw [createVoutLoop_cons_zero] at hover ⊢
      by_cases hmax : count > MAX_CONTRACT_VOUTS
      · rw [if_pos hmax] at hover
        cases hover
      rw [if_neg hmax] at hover ⊢
      rw [createVoutLoop_outs rest count outs nVouts hover]
      simp
    · rw [createVoutLoop_cons_pos isAliveAccount amountOf hb] at hover ⊢
      by_cases hmax : count + 1 > MAX_CONTRACT_VOUTS
      · rw [if_pos hmax] at hover
        cases hover
      rw [if_neg hmax] at hover ⊢
      rw [createVoutLoop_outs rest _ _ _ hover]
      simp [hb]

end Vouts

section NewCoins

theorem get?_createVin (getHash : CTransaction → uint256) (ctx : Condensed) (sender : Address)
    (tx : CTransaction) {a : Address} {b : Nat} (hb : ctx.balances.get? a = some b) (ha : a ≠ sender) :
    (createVin getHash ctx sender tx).get? a =
      some (if b > 0 then ⟨getHash tx, (ctx.nVouts.get? a).getD 0, b, 1⟩ else ⟨getHash tx, 0, 0, 0⟩) := by
  -- the loop writes each entry but the sender's
  have hfold : createVin getHash ctx sender tx = ctx.balances.entries.foldl
      (fun vins e => (if e.1 = sender then none
          else some (if e.2 > 0 then ⟨getHash tx, (ctx.nVouts.get? e.1).getD 0, e.2, 1⟩
            else ⟨getHash tx, 0, 0, 0⟩) : Option Vin).elim vins (vins.write e.1)) .empty := by
    unfold createVin
    congr 1
    funext vins e
    obtain ⟨k, v⟩ := e
    by_cases hk : k = sender <;> by_cases hv : v > 0 <;> simp [hk, hv]
  rw [hfold, OrderedStore.get?_foldl_write (fun e => (if e.1 = sender then none
      else some (if e.2 > 0 then ⟨getHash tx, (ctx.nVouts.get? e.1).getD 0, e.2, 1⟩
        else ⟨getHash tx, 0, 0, 0⟩) : Option Vin)) ctx.balances.sorted]
  unfold OrderedStore.get? at hb
  simp [hb, ha]

theorem vin_updateUTXOStep (s : UTXOState) (e : Address × Vin) (k : Address) :
    (updateUTXOStep s e).vin k =
      if k = e.1 ∧ ((s.vin e.1).isSome ∨ 0 < e.2.alive) then some e.2 else s.vin k := by
  unfold updateUTXOStep
  by_cases hc : (s.vin e.1).isSome ∨ 0 < e.2.alive
  · have hc' : ((s.vin e.1).isSome || decide (e.2.alive > 0)) = true := by simpa using hc
    rw [if_pos hc']
    by_cases hk : k = e.1
    · rw [if_pos ⟨hk, hc⟩, hk]
      simp [UTXOState.vin]
    · simp [UTXOState.vin, Function.update, hk]
  · have hc' : ¬((s.vin e.1).isSome || decide (e.2.alive > 0)) = true := by simpa using hc
    rw [if_neg hc', if_neg (fun h => hc h.2)]

theorem vin_updateUTXO (s : UTXOState) (vins : OrderedStore Address Vin) (k : Address) :
    (updateUTXO s vins).vin k =
      match vins.get? k with
      | some v => if (s.vin k).isSome ∨ 0 < v.alive then some v else s.vin k
      | none => s.vin k := by
  obtain ⟨l, hsorted⟩ := vins
  unfold updateUTXO OrderedStore.get?
  simp only
  induction l generalizing s with
  | nil => rfl
  | cons e rest ih =>
    obtain ⟨k', v'⟩ := e
    rw [List.foldl_cons, ih _ hsorted.of_cons, OrderedStore.lookup_cons_eq_ite]
    by_cases hk : k = k'
    · -- the head's key comes only once, and the later entries leave it
      subst hk
      rw [OrderedStore.lookup_eq_none_of_lt fun e he => List.rel_of_pairwise_cons hsorted he, if_pos rfl]
      simp only [vin_updateUTXOStep, true_and]
    · rw [if_neg hk]
      have hframe : ∀ t, (updateUTXOStep t (k', v')).vin k = t.vin k := fun t => by
        rw [vin_updateUTXOStep, if_neg fun h => hk h.1]
      cases rest.lookup k <;> simp only [hframe]

/-- The bookkeeping after a condensing transaction: when `createCondensingTX`
returns a transaction within the output limit, each address of the transfers
but the sender has a new balance `b`; `createVin` gives it a live coin at an
output of the transaction that pays `b` to it when `b` is positive, and a dead
coin when `b` is zero; and after `updateUTXO` that coin is the address's `vin`
whenever the address had a coin or the new one is alive. -/
theorem createVin_points_at_outputs (s : UTXOState) (isAliveAccount : Address → Bool)
    (amountOf : Nat → Int64) (getHash : CTransaction → uint256) (transfers : List TransferInfo)
    (deleted : Address → Bool) (transaction : ExecTx)
    (hne : (createCondensingTX s isAliveAccount amountOf transfers deleted transaction).tx ≠ emptyTransaction)
    (hlimit : (createCondensingTX s isAliveAccount amountOf transfers deleted transaction).voutOverflow = false)
    {ti : TransferInfo} (hti : ti ∈ transfers) {a : Address} (ha : a = ti.sender ∨ a = ti.receiver)
    (hsender : a ≠ transaction.sender) :
    let ctx := createCondensingTX s isAliveAccount amountOf transfers deleted transaction
    let vins := createVin getHash ctx transaction.sender ctx.tx
    ∃ b, ctx.balances.get? a = some b ∧
      (0 < b → ∃ n : UInt32, vins.get? a = some ⟨getHash ctx.tx, n, b, 1⟩ ∧
        ctx.tx.vout[n.toNat]? = some ⟨amountOf b, condensedScript isAliveAccount a⟩) ∧
      (b = 0 → vins.get? a = some ⟨getHash ctx.tx, 0, 0, 0⟩) ∧
      ((s.vin a).isSome ∨ 0 < b → (updateUTXO s vins).vin a = vins.get? a) := by
  obtain ⟨hok, hctx⟩ := createCondensingTX_of_ne_empty s isAliveAccount amountOf transfers deleted transaction hne
  dsimp only at hok hctx ⊢
  -- the address is a key of `plusMinusInfo`, hence of the new balances
  have hkey : ∃ e ∈ (calculatePlusAndMinus transfers).entries, a = e.1 := by
    obtain ⟨v, hv⟩ := Option.isSome_iff_exists.mp (isSome_get?_calculatePlusAndMinus hti ha)
    exact ⟨(a, v), OrderedStore.mem_of_lookup_eq_some hv, rfl⟩
  have hbal := (createNewBalancesLoop_balances deleted _ _ _ hok a).mpr (Or.inr hkey)
  rw [hctx] at hlimit ⊢
  dsimp only at hlimit ⊢
  generalize createNewBalancesLoop deleted (calculatePlusAndMinus transfers).entries
    (selectionVin s transaction transfers) .empty = newBalances at hbal hlimit ⊢
  obtain ⟨b, hb⟩ := Option.isSome_iff_exists.mp hbal
  obtain ⟨-, -, hpaid⟩ := createVoutLoop_spec isAliveAccount amountOf newBalances.balances.entries 0 [] .empty
    newBalances.balances.sorted rfl (fun _ _ => rfl) hlimit
  generalize createVoutLoop isAliveAccount amountOf newBalances.balances.entries 0 [] .empty = vouts at hpaid ⊢
  have hvin := get?_createVin getHash ⟨⟨2, createVins deleted newBalances.vins, vouts.outs, 0⟩,
    newBalances.balances, vouts.nVouts, vouts.voutOverflow⟩ transaction.sender
    ⟨2, createVins deleted newBalances.vins, vouts.outs, 0⟩ hb hsender
  refine ⟨b, hb, fun hpos => ?_, fun hzero => ?_, fun hcond => ?_⟩
  · obtain ⟨n, hn, hout⟩ := hpaid (a, b) (OrderedStore.mem_of_lookup_eq_some hb) hpos
    refine ⟨n, ?_, hout⟩
    rw [hvin, if_pos hpos]
    simp [hn]
  · rw [hvin, if_neg (by omega)]
  · -- the new coin is written unless the address had none and the coin is dead
    rw [vin_updateUTXO, hvin]
    by_cases hpos : b > 0
    · simp [hpos]
    · simp only [if_neg hpos]
      rw [if_pos (Or.inl (hcond.resolve_right hpos))]

/-- The sender `[1]` passes the `5` it sends to `[2]`, which had no coin: the
condensing transaction spends the sender's output and pays `[2]` at output `0`. -/
theorem createVin_points_at_outputs_of_payment :
    let s : UTXOState := ⟨fun _ => none, fun _ => none⟩
    let transfers : List TransferInfo := [⟨[1], [2], 5⟩]
    let transaction : ExecTx := ⟨[1], 5, Vin.default.hash, 0⟩
    let ctx := createCondensingTX s (fun _ => false) Int64.ofNat transfers (fun _ => false) transaction
    let vins := createVin (fun _ => Vin.default.hash) ctx transaction.sender ctx.tx
    ctx.tx ≠ emptyTransaction ∧ ctx.voutOverflow = false ∧
      ∃ b, ctx.balances.get? [2] = some b ∧
        (0 < b → ∃ n : UInt32, vins.get? [2] = some ⟨Vin.default.hash, n, b, 1⟩ ∧
          ctx.tx.vout[n.toNat]? = some ⟨Int64.ofNat b, condensedScript (fun _ => false) [2]⟩) ∧
        (b = 0 → vins.get? [2] = some ⟨Vin.default.hash, 0, 0, 0⟩) ∧
        ((s.vin [2]).isSome ∨ 0 < b → (updateUTXO s vins).vin [2] = vins.get? [2]) :=
  ⟨by decide, by decide, createVin_points_at_outputs ⟨fun _ => none, fun _ => none⟩ (fun _ => false) Int64.ofNat
    (fun _ => Vin.default.hash) [⟨[1], [2], 5⟩] (fun _ => false) ⟨[1], 5, Vin.default.hash, 0⟩
    (by decide) (by decide) (List.mem_singleton_self _) (Or.inr rfl) (by decide)⟩

end NewCoins

end YuPost.State
