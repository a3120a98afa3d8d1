import Mathlib.Algebra.Order.BigOperators.Group.Finset
import Mathlib.Algebra.BigOperators.Group.Finset.Piecewise
import Mathlib.Algebra.BigOperators.Ring.Finset
import YuPost.State.Condensing

/-! Value conservation of `CondensingTX`. What an address's transfers pay in
and out, its flows, is the specification: `calculatePlusAndMinus` computes
them, `createNewBalances` fails exactly where an address pays out more than
its counted coin and what it takes in, and otherwise the new balances sum to
what the spent coins held. All of it as long as no sum of `dev::u256` values
wraps: the flows are sums in `Nat`, the source's are modulo `2 ^ 256`. -/

namespace YuPost.State

open YuPost.Lib YuPost.Primitives YuPost.Script

/-- What the transfers move with `a` on the side `side`: paid in for the
receiver, paid out for the sender. -/
def flow (side : TransferInfo → Address) (transfers : List TransferInfo) (a : Address) : Nat :=
  ((transfers.filter (side · = a)).map (·.value)).sum

/-- What the transfers pay into `a`. -/
def inflow (transfers : List TransferInfo) (a : Address) : Nat := flow (·.receiver) transfers a

/-- What the transfers pay out of `a`. -/
def outflow (transfers : List TransferInfo) (a : Address) : Nat := flow (·.sender) transfers a

/-- The value of all the transfers. -/
def transferTotal (transfers : List TransferInfo) : Nat := (transfers.map (·.value)).sum

/-- The addresses that send or receive in the transfers. -/
def parties (transfers : List TransferInfo) : Finset Address :=
  (transfers.flatMap fun ti => [ti.sender, ti.receiver]).toFinset

/-- The value of a coin of `vins` that the condensing transaction spends, and
`0` for one it leaves: it spends the coins alive, or dead but not deleted. -/
def spentValue (deleted : Address → Bool) (e : Address × Vin) : Nat :=
  if e.2.alive ≠ 0 ∨ deleted e.1 = false then e.2.value else 0

section Flows

variable (side : TransferInfo → Address)

theorem mem_parties {transfers : List TransferInfo} {a : Address} :
    a ∈ parties transfers ↔ ∃ ti ∈ transfers, a = ti.sender ∨ a = ti.receiver := by
  simp [parties]

theorem flow_cons (ti : TransferInfo) (transfers : List TransferInfo) (a : Address) :
    flow side (ti :: transfers) a = (if side ti = a then ti.value else 0) + flow side transfers a := by
  unfold flow
  by_cases h : side ti = a <;> simp [h]

theorem flow_append_singleton (transfers : List TransferInfo) (ti : TransferInfo) (a : Address) :
    flow side (transfers ++ [ti]) a = flow side transfers a + if side ti = a then ti.value else 0 := by
  unfold flow
  by_cases h : side ti = a <;> simp [List.filter_append, h]

theorem flow_eq_zero {transfers : List TransferInfo} {a : Address} (ha : ∀ ti ∈ transfers, side ti ≠ a) :
    flow side transfers a = 0 := by
  unfold flow
  rw [List.filter_eq_nil_iff.mpr fun ti hti => by simpa using ha ti hti]
  rfl

theorem flow_le_transferTotal (transfers : List TransferInfo) (a : Address) :
    flow side transfers a ≤ transferTotal transfers :=
  ((List.filter_sublist).map _).sum_le_sum fun _ _ => Nat.zero_le _

theorem sum_flow {transfers : List TransferInfo} {K : Finset Address} (hK : ∀ ti ∈ transfers, side ti ∈ K) :
    ∑ a ∈ K, flow side transfers a = transferTotal transfers := by
  induction transfers with
  | nil => simp [flow, transferTotal]
  | cons ti rest ih =>
    simp only [flow_cons, Finset.sum_add_distrib, Finset.sum_ite_eq, if_pos (hK ti List.mem_cons_self),
      ih fun t ht => hK t (List.mem_cons_of_mem _ ht)]
    simp [transferTotal]

end Flows

section PlusMinus

/-- `plusMinusInfo` holds `(F k, G k)` at each key `k` of `S` and nothing at
any other key. -/
def HoldsFlows (plusMinusInfo : OrderedStore Address (Nat × Nat)) (S : Finset Address) (F G : Address → Nat) :
    Prop :=
  ∀ k, plusMinusInfo.get? k = if k ∈ S then some (F k, G k) else none

theorem u256Add_of_lt {a b : Nat} (h : a + b < 2 ^ 256) : u256Add a b = a + b := Nat.mod_eq_of_lt h

/-- Where no sum wraps, one transfer writes the sender's pair with the value
added to what it pays out, then the receiver's with the value added to what it
takes in. -/
theorem plusMinusStep_eq_write {pm : OrderedStore Address (Nat × Nat)} {S : Finset Address}
    {F G : Address → Nat} (h : HoldsFlows pm S F G) (hzero : ∀ k ∉ S, F k = 0 ∧ G k = 0) (ti : TransferInfo)
    (hF : F ti.receiver + ti.value < 2 ^ 256) (hG : G ti.sender + ti.value < 2 ^ 256) :
    plusMinusStep pm ti = (pm.write ti.sender (F ti.sender, G ti.sender + ti.value)).write ti.receiver
      (F ti.receiver + ti.value, G ti.receiver + if ti.sender = ti.receiver then ti.value else 0) := by
  unfold plusMinusStep
  rw [h ti.sender]
  -- the sender's half comes to the same write from an entry and from none
  by_cases hs : ti.sender ∈ S
  on_goal 1 =>
    rw [if_pos hs]
    dsimp only
    rw [u256Add_of_lt hG]
  on_goal 2 =>
    obtain ⟨hFs, hGs⟩ := hzero _ hs
    rw [if_neg hs]
    dsimp only
    rw [show ((0 : Nat), ti.value) = (F ti.sender, G ti.sender + ti.value) by rw [hFs, hGs, Nat.zero_add]]
  -- then the receiver's, the same from both
  all_goals
    rw [OrderedStore.get?_write]
    by_cases hrs : ti.receiver = ti.sender
    · rw [if_pos hrs]
      dsimp only
      rw [hrs, if_pos rfl, u256Add_of_lt (hrs ▸ hF)]
    · rw [if_neg hrs, h ti.receiver, if_neg (Ne.symm hrs), Nat.add_zero]
      by_cases hr : ti.receiver ∈ S
      · rw [if_pos hr]
        dsimp only
        rw [u256Add_of_lt hF]
      · obtain ⟨hFr, hGr⟩ := hzero _ hr
        rw [if_neg hr]
        dsimp only
        rw [hFr, hGr, Nat.zero_add]

theorem holdsFlows_plusMinusStep {pm : OrderedStore Address (Nat × Nat)} {S : Finset Address}
    {F G : Address → Nat} (h : HoldsFlows pm S F G) (hzero : ∀ k ∉ S, F k = 0 ∧ G k = 0) (ti : TransferInfo)
    (hF : F ti.receiver + ti.value < 2 ^ 256) (hG : G ti.sender + ti.value < 2 ^ 256) :
    HoldsFlows (plusMinusStep pm ti) (insert ti.sender (insert ti.receiver S))
      (fun k => F k + if ti.receiver = k then ti.value else 0)
      (fun k => G k + if ti.sender = k then ti.value else 0) := by
  intro k
  rw [plusMinusStep_eq_write h hzero ti hF hG, OrderedStore.get?_write, OrderedStore.get?_write, h k]
  by_cases hkr : k = ti.receiver
  · subst hkr
    simp
  by_cases hks : k = ti.sender
  · subst hks
    simp [hkr, Ne.symm hkr]
  · by_cases hkS : k ∈ S <;> simp [hkr, hks, hkS, Ne.symm hkr, Ne.symm hks]

theorem calculatePlusAndMinus_append_singleton (transfers : List TransferInfo) (ti : TransferInfo) :
    calculatePlusAndMinus (transfers ++ [ti]) = plusMinusStep (calculatePlusAndMinus transfers) ti := by
  unfold calculatePlusAndMinus
  rw [List.foldl_append]
  rfl

/-- Where the transfers' total does not wrap, `calculatePlusAndMinus` holds
what each party takes in and pays out. Induction on the transfers from the
last, the order the loop adds them in. -/
theorem holdsFlows_calculatePlusAndMinus (transfers : List TransferInfo)
    (hwrap : transferTotal transfers < 2 ^ 256) :
    HoldsFlows (calculatePlusAndMinus transfers) (parties transfers) (inflow transfers) (outflow transfers) := by
  induction transfers using List.reverseRecOn with
  | nil =>
    intro k
    simp [calculatePlusAndMinus, parties, OrderedStore.get?, OrderedStore.empty]
  | append_singleton l ti ih =>
    have htotal : transferTotal (l ++ [ti]) = transferTotal l + ti.value := by simp [transferTotal]
    have hzero : ∀ k ∉ parties l, inflow l k = 0 ∧ outflow l k = 0 := by
      intro k hk
      simp only [mem_parties, not_exists, not_and, not_or] at hk
      exact ⟨flow_eq_zero _ fun t ht => Ne.symm (hk t ht).2, flow_eq_zero _ fun t ht => Ne.symm (hk t ht).1⟩
    have hF := flow_le_transferTotal (·.receiver) l ti.receiver
    have hG := flow_le_transferTotal (·.sender) l ti.sender
    have step := holdsFlows_plusMinusStep (ih (by omega)) hzero ti
      (by unfold inflow; omega) (by unfold outflow; omega)
    -- the pairs after the transfer are the flows of the longer list
    have hparties : parties (l ++ [ti]) = insert ti.sender (insert ti.receiver (parties l)) := by
      ext k
      simp only [mem_parties, List.mem_append, List.mem_singleton, Finset.mem_insert]
      constructor
      · rintro ⟨t, ht | rfl, hk⟩
        · exact .inr (.inr ⟨t, ht, hk⟩)
        · exact hk.elim .inl (.inr ∘ .inl)
      · rintro (hk | hk | ⟨t, ht, hk⟩)
        · exact ⟨ti, .inr rfl, .inl hk⟩
        · exact ⟨ti, .inr rfl, .inr hk⟩
        · exact ⟨t, .inl ht, hk⟩
    have hin : inflow (l ++ [ti]) = fun k => inflow l k + if ti.receiver = k then ti.value else 0 :=
      funext fun k => flow_append_singleton _ l ti k
    have hout : outflow (l ++ [ti]) = fun k => outflow l k + if ti.sender = k then ti.value else 0 :=
      funext fun k => flow_append_singleton _ l ti k
    rw [calculatePlusAndMinus_append_singleton, hparties, hin, hout]
    exact step

theorem forall_entries_iff {pm : OrderedStore Address (Nat × Nat)} {S : Finset Address} {F G : Address → Nat}
    (h : HoldsFlows pm S F G) (P : Address → Nat × Nat → Prop) :
    (∀ e ∈ pm.entries, P e.1 e.2) ↔ ∀ k ∈ S, P k (F k, G k) := by
  constructor
  · intro hP k hk
    have hget : pm.get? k = some (F k, G k) := by rw [h k, if_pos hk]
    exact hP _ (OrderedStore.mem_of_lookup_eq_some hget)
  · intro hP e he
    have hget := OrderedStore.get?_of_mem he
    rw [h e.1] at hget
    by_cases hk : e.1 ∈ S
    · rw [if_pos hk, Option.some.injEq] at hget
      rw [← hget]
      exact hP _ hk
    · rw [if_neg hk] at hget
      cases hget

end PlusMinus

section Counted

variable (deleted : Address → Bool)

theorem spentValue_le (e : Address × Vin) : spentValue deleted e ≤ e.2.value := by
  unfold spentValue
  split_ifs <;> omega

theorem countedValue_eq_elim (vins : OrderedStore Address Vin) (k : Address) :
    countedValue deleted vins k = (vins.get? k).elim 0 (fun v => spentValue deleted (k, v)) := by
  unfold countedValue spentValue
  cases vins.get? k <;> rfl

theorem countedValue_le_sum (vins : OrderedStore Address Vin) (k : Address) :
    countedValue deleted vins k ≤ (vins.entries.map (·.2.value)).sum := by
  rw [countedValue_eq_elim]
  cases hv : vins.get? k with
  | none => exact Nat.zero_le _
  | some v =>
    exact (spentValue_le deleted (k, v)).trans
      (List.le_sum_of_mem (List.mem_map_of_mem (f := (·.2.value)) (OrderedStore.mem_of_lookup_eq_some hv)))

theorem sum_spentValue {vins : OrderedStore Address Vin} {K : Finset Address}
    (hK : ∀ k, (vins.get? k).isSome → k ∈ K) :
    (vins.entries.map (spentValue deleted)).sum = ∑ k ∈ K, countedValue deleted vins k := by
  rw [OrderedStore.sum_map_entries]
  simp only [← countedValue_eq_elim]
  apply Finset.sum_subset fun k hk => hK k (OrderedStore.mem_keys.mp hk)
  -- a key without a coin counts for nothing
  intro k _ hk
  rw [OrderedStore.mem_keys, Option.not_isSome_iff_eq_none] at hk
  rw [countedValue_eq_elim, hk]
  rfl

end Counted

theorem sum_filter_pos {α : Type} (l : List (α × Nat)) :
    ((l.filter (0 < ·.2)).map (·.2)).sum = (l.map (·.2)).sum := by
  induction l with
  | nil => rfl
  | cons e rest ih =>
    by_cases h : 0 < e.2
    · simp [h, ih]
    · simp [Nat.eq_zero_of_not_pos h, ih]

section Conservation

variable (s : UTXOState) (isAliveAccount : Address → Bool) (amountOf : Nat → Int64)
  (transfers : List TransferInfo) (deleted : Address → Bool) (transaction : ExecTx)

theorem countedValue_add_inflow_lt
    (hwrap : transferTotal transfers + ((selectionVin s transaction transfers).entries.map (·.2.value)).sum < 2 ^ 256)
    (k : Address) : countedValue deleted (selectionVin s transaction transfers) k + inflow transfers k < 2 ^ 256 := by
  have h1 := countedValue_le_sum deleted (selectionVin s transaction transfers) k
  have h2 := flow_le_transferTotal (·.receiver) transfers k
  unfold inflow
  omega

theorem createNewBalances_ok_iff
    (hwrap : transferTotal transfers + ((selectionVin s transaction transfers).entries.map (·.2.value)).sum < 2 ^ 256) :
    (createNewBalancesLoop deleted (calculatePlusAndMinus transfers).entries (selectionVin s transaction transfers)
        .empty).ok = true ↔
      ∀ k ∈ parties transfers,
        outflow transfers k ≤ countedValue deleted (selectionVin s transaction transfers) k + inflow transfers k := by
  rw [createNewBalancesLoop_ok_iff]
  refine (forall_entries_iff (holdsFlows_calculatePlusAndMinus transfers (by omega))
    (fun k pm => pm.2 ≤ u256Add (countedValue deleted (selectionVin s transaction transfers) k) pm.1)).trans ?_
  refine forall₂_congr fun k _ => ?_
  rw [u256Add_of_lt (countedValue_add_inflow_lt s transfers deleted transaction hwrap k)]

theorem mem_keys_calculatePlusAndMinus {k : Address} :
    k ∈ (calculatePlusAndMinus transfers).keys ↔ k ∈ parties transfers := by
  rw [OrderedStore.mem_keys, mem_parties]
  unfold calculatePlusAndMinus
  rw [isSome_get?_foldl_plusMinusStep]
  simp

theorem keys_newBalances
    (hok : (createNewBalancesLoop deleted (calculatePlusAndMinus transfers).entries
      (selectionVin s transaction transfers) .empty).ok = true) :
    (createNewBalancesLoop deleted (calculatePlusAndMinus transfers).entries
      (selectionVin s transaction transfers) .empty).balances.keys = parties transfers := by
  ext k
  rw [OrderedStore.mem_keys, createNewBalancesLoop_balances deleted _ _ _ hok k, ← mem_keys_calculatePlusAndMinus,
    OrderedStore.mem_keys_iff_exists]
  simp

theorem get?_newBalances
    (hwrap : transferTotal transfers + ((selectionVin s transaction transfers).entries.map (·.2.value)).sum < 2 ^ 256)
    (hok : (createNewBalancesLoop deleted (calculatePlusAndMinus transfers).entries
      (selectionVin s transaction transfers) .empty).ok = true) {k : Address} (hk : k ∈ parties transfers) :
    (createNewBalancesLoop deleted (calculatePlusAndMinus transfers).entries
        (selectionVin s transaction transfers) .empty).balances.get? k =
      some (countedValue deleted (selectionVin s transaction transfers) k + inflow transfers k - outflow transfers k) := by
  rw [get?_createNewBalancesLoop_balances deleted _ (calculatePlusAndMinus transfers).sorted _ _ hok k]
  change ((calculatePlusAndMinus transfers).get? k).elim _ _ = _
  rw [holdsFlows_calculatePlusAndMinus transfers (by omega) k, if_pos hk]
  simp only [Option.elim, u256Add_of_lt (countedValue_add_inflow_lt s transfers deleted transaction hwrap k)]

theorem sum_newBalances
    (hwrap : transferTotal transfers + ((selectionVin s transaction transfers).entries.map (·.2.value)).sum < 2 ^ 256)
    (hok : (createNewBalancesLoop deleted (calculatePlusAndMinus transfers).entries
      (selectionVin s transaction transfers) .empty).ok = true) :
    ((createNewBalancesLoop deleted (calculatePlusAndMinus transfers).entries
        (selectionVin s transaction transfers) .empty).balances.entries.map (·.2)).sum =
      ((selectionVin s transaction transfers).entries.map (spentValue deleted)).sum := by
  have hle := (createNewBalances_ok_iff s transfers deleted transaction hwrap).mp hok
  have hin : ∑ k ∈ parties transfers, inflow transfers k = transferTotal transfers :=
    sum_flow _ fun ti hti => Iff.mpr mem_parties ⟨ti, hti, .inr rfl⟩
  have hout : ∑ k ∈ parties transfers, outflow transfers k = transferTotal transfers :=
    sum_flow _ fun ti hti => Iff.mpr mem_parties ⟨ti, hti, .inl rfl⟩
  -- the coins selected are those of parties
  have hsel : ∀ k, ((selectionVin s transaction transfers).get? k).isSome → k ∈ parties transfers :=
    fun k hk => Iff.mpr mem_parties ((isSome_get?_selectionVin s transaction transfers .empty k hk).resolve_left (by simp))
  calc ((createNewBalancesLoop deleted (calculatePlusAndMinus transfers).entries
          (selectionVin s transaction transfers) .empty).balances.entries.map (·.2)).sum
      = ∑ k ∈ parties transfers,
          (countedValue deleted (selectionVin s transaction transfers) k + inflow transfers k - outflow transfers k) := by
        rw [OrderedStore.sum_map_entries, keys_newBalances s transfers deleted transaction hok]
        refine Finset.sum_congr rfl fun k hk => ?_
        rw [get?_newBalances s transfers deleted transaction hwrap hok hk]
        rfl
    _ = ∑ k ∈ parties transfers, countedValue deleted (selectionVin s transaction transfers) k +
          transferTotal transfers - transferTotal transfers := by
        rw [Finset.sum_tsub_distrib _ hle, Finset.sum_add_distrib, hin, hout]
    _ = ((selectionVin s transaction transfers).entries.map (spentValue deleted)).sum := by
        rw [Nat.add_sub_cancel, sum_spentValue deleted hsel]

/-- Where `amountOf` is exact on the range of `CAmount` and the balances sum to
less than `2 ^ 63`, the outputs of the positive balances pay what the balances
hold. -/
theorem sum_nValue_outputs (balances : OrderedStore Address Nat) (hexact : ∀ b < 2 ^ 63, (amountOf b).toInt = b)
    (hbound : (balances.entries.map (·.2)).sum < 2 ^ 63) :
    ((((balances.entries.filter (0 < ·.2)).map fun e =>
        (⟨amountOf e.2, condensedScript isAliveAccount e.1⟩ : CTxOut)).map (·.nValue.toInt)).sum : Int) =
      (balances.entries.map (·.2)).sum := by
  rw [List.map_map, ← sum_filter_pos, Nat.cast_list_sum, List.map_map]
  congr 1
  apply List.map_congr_left
  intro e he
  -- each balance is at most their sum
  have hle : e.2 ≤ (balances.entries.map (·.2)).sum :=
    List.le_sum_of_mem (List.mem_map_of_mem (List.mem_of_mem_filter he))
  simp [hexact e.2 (by omega)]

/-- Value conservation of `createCondensingTX`, where no sum of `dev::u256`
values wraps. `createNewBalances` fails exactly when a party pays out more than
its counted coin and what it takes in. When the condensing transaction is made
within `MAX_CONTRACT_VOUTS` outputs, each party's balance is its counted coin
and what it takes in less what it pays out; the transaction spends the coins
`createVins` selects and pays each positive balance; the balances sum to what
the spent coins held; and where `CAmount(dev::u256)` is exact and the coins
hold less than `2 ^ 63`, so do the output values. -/
theorem createCondensingTX_conserves_value
    (hwrap : transferTotal transfers + ((selectionVin s transaction transfers).entries.map (·.2.value)).sum < 2 ^ 256) :
    let vins := selectionVin s transaction transfers
    let ctx := createCondensingTX s isAliveAccount amountOf transfers deleted transaction
    ((createNewBalancesLoop deleted (calculatePlusAndMinus transfers).entries vins .empty).ok = false ↔
      ∃ ti ∈ transfers, ∃ a, (a = ti.sender ∨ a = ti.receiver) ∧
        countedValue deleted vins a + inflow transfers a < outflow transfers a) ∧
    (ctx.tx ≠ emptyTransaction → ctx.voutOverflow = false →
      (∀ ti ∈ transfers, ∀ a, a = ti.sender ∨ a = ti.receiver →
        outflow transfers a ≤ countedValue deleted vins a + inflow transfers a ∧
        ctx.balances.get? a = some (countedValue deleted vins a + inflow transfers a - outflow transfers a)) ∧
      ctx.tx.vin = createVins deleted vins ∧
      ctx.tx.vout = (ctx.balances.entries.filter (0 < ·.2)).map
        (fun e => ⟨amountOf e.2, condensedScript isAliveAccount e.1⟩) ∧
      (ctx.balances.entries.map (·.2)).sum = (vins.entries.map (spentValue deleted)).sum ∧
      ((∀ b < 2 ^ 63, (amountOf b).toInt = b) → (vins.entries.map (·.2.value)).sum < 2 ^ 63 →
        (ctx.tx.vout.map (·.nValue.toInt)).sum = (vins.entries.map (spentValue deleted)).sum)) := by
  dsimp only
  have hok_iff := createNewBalances_ok_iff s transfers deleted transaction hwrap
  refine ⟨?_, fun hne hlimit => ?_⟩
  · -- a failure is a party short of funds
    rw [← Bool.not_eq_true, hok_iff]
    constructor
    · intro h
      obtain ⟨a, ha, hlt⟩ := by simpa only [not_forall, not_le, exists_prop] using h
      obtain ⟨ti, hti, hside⟩ := mem_parties.mp ha
      exact ⟨ti, hti, a, hside, hlt⟩
    · rintro ⟨ti, hti, a, hside, hlt⟩ h
      exact absurd (h a (mem_parties.mpr ⟨ti, hti, hside⟩)) (not_le.mpr hlt)
  obtain ⟨hok, hctx⟩ := createCondensingTX_of_ne_empty s isAliveAccount amountOf transfers deleted transaction hne
  rw [hctx] at hlimit ⊢
  dsimp only at hlimit ⊢
  have hsum := sum_newBalances s transfers deleted transaction hwrap hok
  rw [createVoutLoop_outs isAliveAccount amountOf _ 0 [] .empty hlimit, List.nil_append]
  refine ⟨fun ti hti a hside => ?_, createVins_createNewBalancesLoop_vins deleted _ _ _, rfl, hsum,
    fun hexact hbound => ?_⟩
  · have ha := mem_parties.mpr ⟨ti, hti, hside⟩
    exact ⟨hok_iff.mp hok a ha, get?_newBalances s transfers deleted transaction hwrap hok ha⟩
  · -- the balances hold no more than the coins selected
    have hspent : ((selectionVin s transaction transfers).entries.map (spentValue deleted)).sum ≤
        ((selectionVin s transaction transfers).entries.map (·.2.value)).sum :=
      List.sum_le_sum fun e _ => spentValue_le deleted e
    rw [sum_nValue_outputs isAliveAccount amountOf _ hexact (by omega), hsum]

/-- The sender `[1]` passes the `5` it sends to `[2]`. -/
theorem createCondensingTX_conserves_value_of_payment :
    let s : UTXOState := ⟨fun _ => none, fun _ => none⟩
    let transfers : List TransferInfo := [⟨[1], [2], 5⟩]
    let transaction : ExecTx := ⟨[1], 5, Vin.default.hash, 0⟩
    let vins := selectionVin s transaction transfers
    let ctx := createCondensingTX s (fun _ => false) Int64.ofNat transfers (fun _ => false) transaction
    transferTotal transfers + (vins.entries.map (·.2.value)).sum < 2 ^ 256 ∧
    ((createNewBalancesLoop (fun _ => false) (calculatePlusAndMinus transfers).entries vins .empty).ok = false ↔
      ∃ ti ∈ transfers, ∃ a, (a = ti.sender ∨ a = ti.receiver) ∧
        countedValue (fun _ => false) vins a + inflow transfers a < outflow transfers a) ∧
    (ctx.tx ≠ emptyTransaction → ctx.voutOverflow = false →
      (∀ ti ∈ transfers, ∀ a, a = ti.sender ∨ a = ti.receiver →
        outflow transfers a ≤ countedValue (fun _ => false) vins a + inflow transfers a ∧
        ctx.balances.get? a = some (countedValue (fun _ => false) vins a + inflow transfers a - outflow transfers a)) ∧
      ctx.tx.vin = createVins (fun _ => false) vins ∧
      ctx.tx.vout = (ctx.balances.entries.filter (0 < ·.2)).map
        (fun e => ⟨Int64.ofNat e.2, condensedScript (fun _ => false) e.1⟩) ∧
      (ctx.balances.entries.map (·.2)).sum = (vins.entries.map (spentValue (fun _ => false))).sum ∧
      ((∀ b < 2 ^ 63, (Int64.ofNat b).toInt = b) → (vins.entries.map (·.2.value)).sum < 2 ^ 63 →
        (ctx.tx.vout.map (·.nValue.toInt)).sum = (vins.entries.map (spentValue (fun _ => false))).sum)) :=
  ⟨by decide, createCondensingTX_conserves_value ⟨fun _ => none, fun _ => none⟩ (fun _ => false) Int64.ofNat
    [⟨[1], [2], 5⟩] (fun _ => false) ⟨[1], 5, Vin.default.hash, 0⟩ (by decide)⟩

/-- Without the bound the `dev::u256` sums wrap. `[1]`, with a coin of `1`,
sends `2 ^ 255` to `[2]` and to `[3]`: what it pays out wraps to `0`, so
`createNewBalances` succeeds though `[1]` pays out more than it has, and the
new balances hold `2 ^ 256` more than the coin spent. -/
theorem createCondensingTX_wrapped_outflow :
    let s : UTXOState := ⟨fun _ => none, fun a => if a = [1] then some ⟨Vin.default.hash, 0, 1, 1⟩ else none⟩
    let transfers : List TransferInfo := [⟨[1], [2], 2 ^ 255⟩, ⟨[1], [3], 2 ^ 255⟩]
    let transaction : ExecTx := ⟨[9], 0, Vin.default.hash, 0⟩
    let vins := selectionVin s transaction transfers
    let ctx := createCondensingTX s (fun _ => false) Int64.ofNat transfers (fun _ => false) transaction
    ctx.tx ≠ emptyTransaction ∧ ctx.voutOverflow = false ∧
      (createNewBalancesLoop (fun _ => false) (calculatePlusAndMinus transfers).entries vins .empty).ok = true ∧
      countedValue (fun _ => false) vins [1] + inflow transfers [1] < outflow transfers [1] ∧
      (ctx.balances.entries.map (·.2)).sum = (vins.entries.map (spentValue (fun _ => false))).sum + 2 ^ 256 := by
  decide

end Conservation

end YuPost.State
