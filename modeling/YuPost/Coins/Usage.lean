import YuPost.Coins.Refinement
import YuPost.Lib.Fallible

/-! `cachedCoinsUsage` of a layer is the heap memory its entries' coins hold,
modulo `2^64`: each operation adds the memory of a coin it puts in and
subtracts that of a coin it takes out, `Flush` leaves the layer empty at `0`,
and a cleared coin holds none. -/

namespace YuPost.Coins

open YuPost.Lib

@[simp] theorem Coin.usage_clear {α : Type} (c : Coin α) : c.clear.usage = 0 := rfl

section Usage

variable {κ α : Type} [LinearOrder κ] (scriptUsage : α → Nat) (isUnspendable : α → Bool)

theorem usageInv_write_of_none {v : CCoinsViewCache κ α} (hv : UsageInv v) {k : κ}
    (hk : v.cacheCoins.get? k = none) (e : CCoinsCacheEntry α) :
    UsageInv ⟨v.cacheCoins.write k e, v.cachedCoinsUsage + UInt64.ofNat e.coin.usage⟩ := by
  have hsum := OrderedStore.sum_map_write v.cacheCoins k e (·.2.coin.usage)
  rw [hk, Option.elim_none, Nat.add_zero] at hsum
  unfold UsageInv at hv ⊢
  rw [hv, ← UInt64.ofNat_add, hsum]

theorem usageInv_write_of_some {v : CCoinsViewCache κ α} (hv : UsageInv v) {k : κ} {old : CCoinsCacheEntry α}
    (hk : v.cacheCoins.get? k = some old) (e : CCoinsCacheEntry α) :
    UsageInv ⟨v.cacheCoins.write k e,
      v.cachedCoinsUsage - UInt64.ofNat old.coin.usage + UInt64.ofNat e.coin.usage⟩ := by
  have hsum := congrArg UInt64.ofNat (OrderedStore.sum_map_write v.cacheCoins k e (·.2.coin.usage))
  rw [hk, Option.elim_some, UInt64.ofNat_add, UInt64.ofNat_add] at hsum
  unfold UsageInv at hv ⊢
  rw [hv]
  grind

theorem usageInv_write_cleared {v : CCoinsViewCache κ α} (hv : UsageInv v) {k : κ} {old : CCoinsCacheEntry α}
    (hk : v.cacheCoins.get? k = some old) (c : Coin α) (dirty fresh : Bool) :
    UsageInv ⟨v.cacheCoins.write k ⟨c.clear, dirty, fresh⟩, v.cachedCoinsUsage - UInt64.ofNat old.coin.usage⟩ := by
  have h := usageInv_write_of_some hv hk ⟨c.clear, dirty, fresh⟩
  simp only [Coin.usage_clear] at h
  rwa [show UInt64.ofNat 0 = 0 from rfl, add_zero] at h

theorem usageInv_erase_of_some {v : CCoinsViewCache κ α} (hv : UsageInv v) {k : κ} {old : CCoinsCacheEntry α}
    (hk : v.cacheCoins.get? k = some old) :
    UsageInv ⟨v.cacheCoins.erase k, v.cachedCoinsUsage - UInt64.ofNat old.coin.usage⟩ := by
  have hsum := congrArg UInt64.ofNat (OrderedStore.sum_map_erase v.cacheCoins k (·.2.coin.usage))
  rw [hk, Option.elim_some, UInt64.ofNat_add] at hsum
  unfold UsageInv at hv ⊢
  rw [hv]
  grind

/-- `FetchCoin` keeps the layer's count, hands back the layers below as they
were or as the parent's `GetCoin` left them, and returns the entry the layer
then holds. -/
theorem fetchCoin_usage {v : CCoinsViewCache κ α} (hv : UsageInv v) (k : κ) (below : List (CCoinsViewCache κ α))
    (parent : List (CCoinsViewCache κ α) × Option α) :
    UsageInv (fetchCoin scriptUsage v k below parent).1 ∧
      ((fetchCoin scriptUsage v k below parent).2.1 = below ∨ (fetchCoin scriptUsage v k below parent).2.1 = parent.1) ∧
      (fetchCoin scriptUsage v k below parent).1.cacheCoins.get? k = (fetchCoin scriptUsage v k below parent).2.2 := by
  obtain ⟨below', r⟩ := parent
  unfold fetchCoin
  cases hk : v.cacheCoins.get? k with
  | some e => exact ⟨hv, .inl rfl, hk⟩
  | none =>
    cases r with
    | none => exact ⟨hv, .inr rfl, hk⟩
    | some o => exact ⟨usageInv_write_of_none hv hk _, .inr rfl, by simp⟩

theorem getCoin_usage (db : OrderedStore κ α) (k : κ) :
    ∀ {layers : List (CCoinsViewCache κ α)}, (∀ v ∈ layers, UsageInv v) →
      ∀ v ∈ (getCoin scriptUsage db layers k).1, UsageInv v
  | [], _ => fun _ h => nomatch h
  | v :: below, h => by
    obtain ⟨hv', hbelow', -⟩ :=
      fetchCoin_usage scriptUsage (h v List.mem_cons_self) k below (getCoin scriptUsage db below k)
    have hbelow : ∀ u ∈ below, UsageInv u := fun u hu => h u (List.mem_cons_of_mem _ hu)
    rw [getCoin_cons]
    intro u hu
    rcases List.mem_cons.mp hu with rfl | hu
    · exact hv'
    · -- the layers below are as they were, or as their own `GetCoin` left them
      rcases hbelow' with heq | heq <;> rw [heq] at hu
      · exact hbelow u hu
      · exact getCoin_usage db k hbelow u hu

theorem fetchCoin_getCoin_usage {db : OrderedStore κ α} {v : CCoinsViewCache κ α}
    {below : List (CCoinsViewCache κ α)} (hall : ∀ u ∈ v :: below, UsageInv u) {k : κ} {v' : CCoinsViewCache κ α}
    {below' : List (CCoinsViewCache κ α)} {e : Option (CCoinsCacheEntry α)}
    (h : fetchCoin scriptUsage v k below (getCoin scriptUsage db below k) = (v', below', e)) :
    UsageInv v' ∧ (∀ u ∈ below', UsageInv u) ∧ v'.cacheCoins.get? k = e := by
  have hbelow : ∀ u ∈ below, UsageInv u := fun u hu => hall u (List.mem_cons_of_mem _ hu)
  obtain ⟨hv', hb, hget⟩ := fetchCoin_usage scriptUsage (hall v List.mem_cons_self) k below
    (getCoin scriptUsage db below k)
  simp only [h] at hv' hb hget
  refine ⟨hv', ?_, hget⟩
  rcases hb with rfl | rfl
  · exact hbelow
  · exact getCoin_usage scriptUsage db k hbelow

theorem addCoin_usage {v v' : CCoinsViewCache κ α} (hv : UsageInv v) {k : κ} {o : α} {possibleOverwrite : Bool}
    (h : addCoin scriptUsage isUnspendable v k o possibleOverwrite = .ok v') : UsageInv v' := by
  unfold addCoin at h
  split at h
  · cases h
    exact hv
  · cases hk : v.cacheCoins.get? k with
    | none =>
      simp only [hk] at h
      split at h
      · cases h
      · cases h
        exact usageInv_write_of_none hv hk _
    | some e =>
      simp only [hk] at h
      split at h
      · cases h
      · cases h
        exact usageInv_write_of_some hv hk _

theorem addCoinOf_usage (db : OrderedStore κ α) {v : CCoinsViewCache κ α} {below : List (CCoinsViewCache κ α)}
    (hall : ∀ u ∈ v :: below, UsageInv u) {k : κ} {o : α} {fCoinbase check : Bool}
    {r : CCoinsViewCache κ α × List (CCoinsViewCache κ α)}
    (h : addCoinOf scriptUsage isUnspendable db v below k o fCoinbase check = .ok r) :
    ∀ u ∈ r.1 :: r.2, UsageInv u := by
  cases check with
  | true =>
    -- `HaveCoin` fetches first; the coin goes into the layer it leaves
    rcases hfc : fetchCoin scriptUsage v k below (getCoin scriptUsage db below k) with ⟨v1, below1, e⟩
    obtain ⟨hv1, hbelow1, -⟩ := fetchCoin_getCoin_usage scriptUsage hall hfc
    simp only [addCoinOf, haveCoin, hfc, if_true] at h
    obtain ⟨v2, hadd, rfl⟩ := map_eq_ok.mp h
    exact List.forall_mem_cons.mpr ⟨addCoin_usage scriptUsage isUnspendable hv1 hadd, hbelow1⟩
  | false =>
    simp only [addCoinOf, Bool.false_eq_true, if_false] at h
    obtain ⟨v2, hadd, rfl⟩ := map_eq_ok.mp h
    exact List.forall_mem_cons.mpr ⟨addCoin_usage scriptUsage isUnspendable (hall v List.mem_cons_self) hadd,
      fun u hu => hall u (List.mem_cons_of_mem _ hu)⟩

theorem spendCoin_usage (db : OrderedStore κ α) {v : CCoinsViewCache κ α} {below : List (CCoinsViewCache κ α)}
    (hall : ∀ u ∈ v :: below, UsageInv u) (k : κ) (moveout : Option (Coin α)) :
    ∀ u ∈ (spendCoin scriptUsage db v below k moveout).1.1 :: (spendCoin scriptUsage db v below k moveout).1.2,
      UsageInv u := by
  rcases hfc : fetchCoin scriptUsage v k below (getCoin scriptUsage db below k) with ⟨v1, below1, e⟩
  obtain ⟨hv1, hbelow1, hget⟩ := fetchCoin_getCoin_usage scriptUsage hall hfc
  refine List.forall_mem_cons.mpr ⟨?_, ?_⟩
  · cases e with
    | none =>
      simp only [spendCoin, hfc]
      exact hv1
    | some e0 =>
      -- the spent entry's memory leaves the count, whether it is erased or cleared
      cases hfresh : e0.fresh
      · simp only [spendCoin, hfc, hfresh, Bool.false_eq_true, if_false]
        exact usageInv_write_cleared hv1 hget _ _ _
      · simp only [spendCoin, hfc, hfresh, if_true]
        exact usageInv_erase_of_some hv1 hget
  · cases e with
    | none =>
      simp only [spendCoin, hfc]
      exact hbelow1
    | some e0 =>
      cases hfresh : e0.fresh
      · simp only [spendCoin, hfc, hfresh, Bool.false_eq_true, if_false]
        exact hbelow1
      · simp only [spendCoin, hfc, hfresh, if_true]
        exact hbelow1

theorem uncache_usage {v : CCoinsViewCache κ α} (hv : UsageInv v) (k : κ) : UsageInv (uncache v k) := by
  unfold uncache
  cases hk : v.cacheCoins.get? k with
  | none => exact hv
  | some e =>
    dsimp only
    split_ifs
    · exact usageInv_erase_of_some hv hk
    · exact hv

theorem batchWriteEntry_usage {p p' : CCoinsViewCache κ α} (hp : UsageInv p) {k : κ} {e : CCoinsCacheEntry α}
    (h : batchWriteEntry p k e = .ok p') : UsageInv p' := by
  unfold batchWriteEntry at h
  split at h
  · cases h
    exact hp
  · cases hk : p.cacheCoins.get? k with
    | none =>
      simp only [hk] at h
      split at h
      · cases h
        exact hp
      · cases h
        exact usageInv_write_of_none hp hk _
    | some ours =>
      simp only [hk] at h
      split at h
      · cases h
      · split at h
        · cases h
          exact usageInv_erase_of_some hp hk
        · cases h
          exact usageInv_write_of_some hp hk _

theorem batchWrite_usage {mapCoins : List (κ × CCoinsCacheEntry α)} {p p' : CCoinsViewCache κ α}
    (hp : UsageInv p) (h : batchWrite p mapCoins = .ok p') : UsageInv p' := by
  induction mapCoins generalizing p with
  | nil =>
    cases h
    exact hp
  | cons entry rest ih =>
    obtain ⟨k, e⟩ := entry
    rw [batchWrite_cons] at h
    obtain ⟨p1, h1, hrest⟩ := bind_eq_ok.mp h
    exact ih (batchWriteEntry_usage hp h1) hrest

theorem flush_usage {db : OrderedStore κ α} {v : CCoinsViewCache κ α} {below : List (CCoinsViewCache κ α)}
    (hall : ∀ u ∈ v :: below, UsageInv u) {r : OrderedStore κ α × List (CCoinsViewCache κ α)}
    (h : flush db v below = .ok r) : ∀ u ∈ r.2, UsageInv u := by
  cases below with
  | nil =>
    cases h
    exact List.forall_mem_cons.mpr ⟨usageInv_empty, fun _ h => nomatch h⟩
  | cons p rest =>
    obtain ⟨p', hbw, rfl⟩ := map_eq_ok.mp h
    -- the flushed layer is left empty at `0`, and its parent has written its map
    refine List.forall_mem_cons.mpr ⟨usageInv_empty, List.forall_mem_cons.mpr ⟨?_, ?_⟩⟩
    · exact batchWrite_usage (hall p (List.mem_cons_of_mem _ List.mem_cons_self)) hbw
    · exact fun u hu => hall u (List.mem_cons_of_mem _ (List.mem_cons_of_mem _ hu))

theorem onLayer_usage {s s' : CoinsState κ α} {i : Nat}
    {f : OrderedStore κ α → CCoinsViewCache κ α → List (CCoinsViewCache κ α) →
      Except String (OrderedStore κ α × List (CCoinsViewCache κ α))}
    (hf : ∀ db v below r, f db v below = .ok r → (∀ u ∈ v :: below, UsageInv u) → ∀ u ∈ r.2, UsageInv u)
    (h : onLayer s i f = .ok s') (hs : ∀ u ∈ s.layers, UsageInv u) : ∀ u ∈ s'.layers, UsageInv u := by
  cases hd : s.layers.drop i with
  | nil =>
    unfold onLayer at h
    rw [hd] at h
    cases h
    exact hs
  | cons v below =>
    rw [onLayer_of_drop_eq hd] at h
    obtain ⟨r, hr, rfl⟩ := map_eq_ok.mp h
    have hdrop : ∀ u ∈ v :: below, UsageInv u := fun u hu => hs u (List.mem_of_mem_drop (hd ▸ hu))
    intro u hu
    rcases List.mem_append.mp hu with hu | hu
    · exact hs u (List.mem_of_mem_take hu)
    · exact hf _ _ _ r hr hdrop u hu

theorem step_usage {s s' : CoinsState κ α} {op : CoinsOp κ α} (h : step scriptUsage isUnspendable s op = .ok s')
    (hs : ∀ u ∈ s.layers, UsageInv u) : ∀ u ∈ s'.layers, UsageInv u := by
  cases op with
  | fetch i k =>
    unfold step at h
    refine onLayer_usage (fun db v below r hr hall => ?_) h hs
    cases hr
    exact getCoin_usage scriptUsage db k hall
  | addCoin k o fCoinbase check =>
    unfold step at h
    refine onLayer_usage (fun db v below r hr hall => ?_) h hs
    obtain ⟨r', hadd, rfl⟩ := map_eq_ok.mp hr
    exact addCoinOf_usage scriptUsage isUnspendable db hall hadd
  | spendCoin k moveout =>
    unfold step at h
    refine onLayer_usage (fun db v below r hr hall => ?_) h hs
    cases hr
    exact spendCoin_usage scriptUsage db hall k _
  | uncache i k =>
    unfold step at h
    refine onLayer_usage (fun db v below r hr hall => ?_) h hs
    cases hr
    exact List.forall_mem_cons.mpr ⟨uncache_usage (hall v List.mem_cons_self) k,
      fun u hu => hall u (List.mem_cons_of_mem _ hu)⟩
  | flush i => exact onLayer_usage (fun db v below r hr hall => flush_usage hall hr) h hs

/-- Over every run that does not throw, from a chain whose layers' counts are
right, `cachedCoinsUsage` of every layer stays the memory its entries' coins
hold, modulo `2^64`. -/
theorem run_keeps_cachedCoinsUsage (s : CoinsState κ α) (ops : List (CoinsOp κ α)) {s' : CoinsState κ α}
    (h : run scriptUsage isUnspendable s ops = .ok s') (hs : ∀ v ∈ s.layers, UsageInv v) :
    ∀ v ∈ s'.layers, UsageInv v := by
  induction ops generalizing s with
  | nil =>
    cases h
    exact hs
  | cons op ops ih =>
    obtain ⟨s1, hstep, hrest⟩ := bind_eq_ok.mp h
    exact ih s1 hrest (step_usage scriptUsage isUnspendable hstep hs)

theorem run_keeps_cachedCoinsUsage_of_add_flush_spend :
    ∃ s', run (fun o => o) (fun _ => false) (⟨.empty, [.empty, .empty]⟩ : CoinsState Nat Nat)
        [.addCoin 1 5 false false, .fetch 1 1, .flush 0, .spendCoin 1 true, .addCoin 2 6 false true, .flush 1] =
        .ok s' ∧ ∀ v ∈ s'.layers, UsageInv v := by
  obtain ⟨s', hrun⟩ : ∃ s', run (fun o => o) (fun _ => false) (⟨.empty, [.empty, .empty]⟩ : CoinsState Nat Nat)
      [.addCoin 1 5 false false, .fetch 1 1, .flush 0, .spendCoin 1 true, .addCoin 2 6 false true, .flush 1] =
      .ok s' := ⟨_, rfl⟩
  exact ⟨s', hrun, run_keeps_cachedCoinsUsage (fun o => o) (fun _ => false) _ _ hrun
    (List.forall_mem_cons.mpr ⟨usageInv_empty, List.forall_mem_cons.mpr ⟨usageInv_empty, fun _ h => nomatch h⟩⟩)⟩

end Usage

end YuPost.Coins
