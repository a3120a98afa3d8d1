import Mathlib
import YuPost.Coins.Cache
import YuPost.Lib.UpdateAll

/-! A chain of coin caches refines one flat map of coins: what `GetCoin` of
the top answers is what a map with the same additions and spends holds, and a
`Flush` hands a layer's answers to its parent. What carries it are the flags'
meaning from `coins.h`: an entry not `DIRTY` is its parent's coin, and under a
`FRESH` one the parent has no coin. `AddCoin` sets `FRESH` without asking the
parent, so that meaning holds only when no coin is added without
`possible_overwrite` over one the view has. -/

namespace YuPost.Coins

open YuPost.Lib

section View

variable {κ α : Type} [LinearOrder κ]

/-- The coins a chain of layers answers for over the view `base`: at each key,
that of the first layer holding an entry there, else `base`'s. -/
def viewOver (base : κ → Option α) : List (CCoinsViewCache κ α) → κ → Option α
  | [], k => base k
  | v :: below, k =>
    match v.cacheCoins.get? k with
    | some e => e.coin.out
    | none => viewOver base below k

theorem viewOver_cons (base : κ → Option α) (v : CCoinsViewCache κ α) (below : List (CCoinsViewCache κ α))
    (k : κ) : viewOver base (v :: below) k = (v.cacheCoins.get? k).elim (viewOver base below k) (·.coin.out) := by
  simp only [viewOver]
  cases v.cacheCoins.get? k <;> rfl

theorem viewOver_append (base : κ → Option α) (pre suf : List (CCoinsViewCache κ α)) :
    viewOver base (pre ++ suf) = viewOver (viewOver base suf) pre := by
  induction pre with
  | nil => rfl
  | cons v pre ih =>
    funext k
    rw [List.cons_append, viewOver_cons, viewOver_cons, ih]

theorem viewOver_cons_eq (base : κ → Option α) (v : CCoinsViewCache κ α) (below : List (CCoinsViewCache κ α)) :
    viewOver base (v :: below) = viewOver (viewOver base below) [v] :=
  viewOver_append base [v] below

/-- The flags of a layer's entries mean what `coins.h` says, over the view
`parent` of the layers below: an entry not `DIRTY` holds the parent's coin,
and the parent has no coin under a `FRESH` entry. -/
structure FlagsInv (v : CCoinsViewCache κ α) (parent : κ → Option α) : Prop where
  clean : ∀ k e, v.cacheCoins.get? k = some e → e.dirty = false → e.coin.out = parent k
  fresh : ∀ k e, v.cacheCoins.get? k = some e → e.fresh = true → parent k = none

/-- Every layer's flags mean what they say over the layers below it. -/
def ChainInv (base : κ → Option α) : List (CCoinsViewCache κ α) → Prop
  | [] => True
  | v :: below => FlagsInv v (viewOver base below) ∧ ChainInv base below

theorem chainInv_append (base : κ → Option α) (pre suf : List (CCoinsViewCache κ α)) :
    ChainInv base (pre ++ suf) ↔ ChainInv (viewOver base suf) pre ∧ ChainInv base suf := by
  induction pre with
  | nil => simp [ChainInv]
  | cons v pre ih =>
    simp only [List.cons_append, ChainInv, ih, viewOver_append, and_assoc]

/-- `cachedCoinsUsage` is the memory of the layer's coins. -/
def UsageInv (v : CCoinsViewCache κ α) : Prop :=
  v.cachedCoinsUsage = UInt64.ofNat ((v.cacheCoins.entries.map (·.2.coin.usage)).sum)

theorem flagsInv_empty (parent : κ → Option α) : FlagsInv (CCoinsViewCache.empty : CCoinsViewCache κ α) parent :=
  ⟨fun _ _ h => by simp [CCoinsViewCache.empty] at h, fun _ _ h => by simp [CCoinsViewCache.empty] at h⟩

theorem usageInv_empty : UsageInv (CCoinsViewCache.empty : CCoinsViewCache κ α) := rfl

theorem viewOver_write_cons (base : κ → Option α) (v : CCoinsViewCache κ α) (k : κ) (e : CCoinsCacheEntry α)
    (u : UInt64) (below : List (CCoinsViewCache κ α)) (j : κ) :
    viewOver base (⟨v.cacheCoins.write k e, u⟩ :: below) j =
      if j = k then e.coin.out else viewOver base (v :: below) j := by
  rw [viewOver_cons, viewOver_cons, OrderedStore.get?_write]
  split_ifs <;> rfl

theorem viewOver_erase_cons (base : κ → Option α) (v : CCoinsViewCache κ α) (k : κ) (u : UInt64)
    (below : List (CCoinsViewCache κ α)) (j : κ) :
    viewOver base (⟨v.cacheCoins.erase k, u⟩ :: below) j =
      if j = k then viewOver base below j else viewOver base (v :: below) j := by
  rw [viewOver_cons, viewOver_cons, OrderedStore.get?_erase]
  split_ifs <;> rfl

@[simp] theorem viewOver_empty_cons (base : κ → Option α) (below : List (CCoinsViewCache κ α)) :
    viewOver base (CCoinsViewCache.empty :: below) = viewOver base below := rfl

theorem viewOver_cons_of_none {base : κ → Option α} {v : CCoinsViewCache κ α} {k : κ}
    (h : v.cacheCoins.get? k = none) (below : List (CCoinsViewCache κ α)) :
    viewOver base (v :: below) k = viewOver base below k := by
  rw [viewOver_cons, h]
  rfl

theorem viewOver_cons_of_some {base : κ → Option α} {v : CCoinsViewCache κ α} {k : κ} {e : CCoinsCacheEntry α}
    (h : v.cacheCoins.get? k = some e) (below : List (CCoinsViewCache κ α)) :
    viewOver base (v :: below) k = e.coin.out := by
  rw [viewOver_cons, h]
  rfl

namespace FlagsInv

variable {v : CCoinsViewCache κ α} {parent : κ → Option α}

theorem write (h : FlagsInv v parent) {k : κ} {e : CCoinsCacheEntry α}
    (hclean : e.dirty = false → e.coin.out = parent k) (hfresh : e.fresh = true → parent k = none) (u : UInt64) :
    FlagsInv ⟨v.cacheCoins.write k e, u⟩ parent := by
  constructor
  · intro j e' hj hd
    rw [OrderedStore.get?_write] at hj
    split_ifs at hj with hjk
    · cases hj
      rw [hjk]
      exact hclean hd
    · exact h.clean j e' hj hd
  · intro j e' hj hf
    rw [OrderedStore.get?_write] at hj
    split_ifs at hj with hjk
    · cases hj
      rw [hjk]
      exact hfresh hf
    · exact h.fresh j e' hj hf

theorem erase (h : FlagsInv v parent) (k : κ) (u : UInt64) : FlagsInv ⟨v.cacheCoins.erase k, u⟩ parent := by
  constructor
  · intro j e hj
    rw [OrderedStore.get?_erase] at hj
    split_ifs at hj
    exact h.clean j e hj
  · intro j e hj
    rw [OrderedStore.get?_erase] at hj
    split_ifs at hj
    exact h.fresh j e hj

theorem viewOver_of_clean (h : FlagsInv v parent) {k : κ} {e : CCoinsCacheEntry α}
    (hk : v.cacheCoins.get? k = some e) (hd : e.dirty = false) : viewOver parent [v] k = parent k := by
  rw [viewOver_cons_of_some hk]
  exact h.clean k e hk hd

end FlagsInv

end View

section Fetch

variable {κ α : Type} [LinearOrder κ] (scriptUsage : α → Nat)

/-- What a `GetCoin` of `k` from the chain `layers` over `base` does: it
answers `r`, the chain's coin at `k`, and leaves the chain `layers'`, which
answers as `layers` did and whose flags mean what they say. -/
structure Fetched (base : κ → Option α) (layers : List (CCoinsViewCache κ α)) (k : κ)
    (layers' : List (CCoinsViewCache κ α)) (r : Option α) : Prop where
  answer : r = viewOver base layers k
  view : viewOver base layers' = viewOver base layers
  chain : ChainInv base layers'

theorem getCoin_cons (db : OrderedStore κ α) (v : CCoinsViewCache κ α) (below : List (CCoinsViewCache κ α))
    (k : κ) :
    getCoin scriptUsage db (v :: below) k =
      let r := fetchCoin scriptUsage v k below (getCoin scriptUsage db below k)
      (r.1 :: r.2.1, r.2.2.bind (·.coin.out)) := rfl

/-- `FetchCoin` of a layer whose parent fetched its coin: the entry it returns
is the one the layer now holds, and the layer over its parent's chain is
fetched too. -/
theorem fetchCoin_fetched {base : κ → Option α} {v : CCoinsViewCache κ α} {below : List (CCoinsViewCache κ α)}
    (hinv : ChainInv base (v :: below)) {k : κ} {parent : List (CCoinsViewCache κ α) × Option α}
    (hparent : Fetched base below k parent.1 parent.2) {v' : CCoinsViewCache κ α}
    {below' : List (CCoinsViewCache κ α)} {e : Option (CCoinsCacheEntry α)}
    (h : fetchCoin scriptUsage v k below parent = (v', below', e)) :
    v'.cacheCoins.get? k = e ∧ Fetched base (v :: below) k (v' :: below') (e.bind (·.coin.out)) := by
  obtain ⟨hv, hbelow⟩ := hinv
  obtain ⟨parentLayers, r⟩ := parent
  obtain ⟨hr, hview, hchain⟩ := hparent
  dsimp only at hr hview hchain
  unfold fetchCoin at h
  cases hk : v.cacheCoins.get? k with
  | some e0 =>
    -- the layer holds an entry: nothing below is asked
    rw [hk] at h
    cases h
    exact ⟨hk, (viewOver_cons_of_some hk below).symm, rfl, ⟨hv, hbelow⟩⟩
  | none =>
    rw [hk] at h
    have hviewCons : viewOver base (v :: parentLayers) = viewOver base (v :: below) := by
      rw [viewOver_cons_eq base v parentLayers, viewOver_cons_eq base v below, hview]
    cases r with
    | none =>
      simp only [Prod.mk.injEq] at h
      obtain ⟨rfl, rfl, rfl⟩ := h
      refine ⟨hk, ?_, hviewCons, ⟨hview ▸ hv, hchain⟩⟩
      rw [viewOver_cons_of_none hk, ← hr]
      rfl
    | some o =>
      -- the parent's coin is copied in, clean and not fresh
      simp only [Prod.mk.injEq] at h
      obtain ⟨rfl, rfl, rfl⟩ := h
      have hcopy : (fetchedEntry scriptUsage o).coin.out = viewOver base parentLayers k := by
        rw [hview, ← hr]
        rfl
      refine ⟨by simp, ?_, ?_, ⟨?_, hchain⟩⟩
      · rw [viewOver_cons_of_none hk, ← hr]
        rfl
      · funext j
        rw [viewOver_write_cons, ← hviewCons]
        split_ifs with hj
        · rw [hj, viewOver_cons_of_none hk, ← hcopy]
        · rfl
      · exact (hview ▸ hv).write (fun _ => hcopy) (fun hf => absurd hf Bool.false_ne_true) _

theorem getCoin_fetched (db : OrderedStore κ α) (k : κ) :
    ∀ {layers : List (CCoinsViewCache κ α)}, ChainInv db.get? layers →
      Fetched db.get? layers k (getCoin scriptUsage db layers k).1 (getCoin scriptUsage db layers k).2
  | [], _ => ⟨rfl, rfl, trivial⟩
  | v :: below, hinv => by
    rw [getCoin_cons]
    exact (fetchCoin_fetched scriptUsage hinv (getCoin_fetched db k hinv.2) rfl).2

theorem fetchCoin_getCoin {db : OrderedStore κ α} {v : CCoinsViewCache κ α} {below : List (CCoinsViewCache κ α)}
    (hinv : ChainInv db.get? (v :: below)) {k : κ} {v' : CCoinsViewCache κ α}
    {below' : List (CCoinsViewCache κ α)} {e : Option (CCoinsCacheEntry α)}
    (h : fetchCoin scriptUsage v k below (getCoin scriptUsage db below k) = (v', below', e)) :
    v'.cacheCoins.get? k = e ∧ Fetched db.get? (v :: below) k (v' :: below') (e.bind (·.coin.out)) :=
  fetchCoin_fetched scriptUsage hinv (getCoin_fetched scriptUsage db k hinv.2) h

theorem haveCoin_spec {db : OrderedStore κ α} {v : CCoinsViewCache κ α} {below : List (CCoinsViewCache κ α)}
    (hinv : ChainInv db.get? (v :: below)) (k : κ) :
    ∃ v' below', haveCoin scriptUsage db v below k = ((v', below'), (viewOver db.get? (v :: below) k).isSome) ∧
      Fetched db.get? (v :: below) k (v' :: below') (viewOver db.get? (v :: below) k) := by
  rcases hfc : fetchCoin scriptUsage v k below (getCoin scriptUsage db below k) with ⟨v', below', e⟩
  obtain ⟨hget, hf⟩ := fetchCoin_getCoin scriptUsage hinv hfc
  refine ⟨v', below', ?_, ⟨rfl, hf.view, hf.chain⟩⟩
  simp only [haveCoin, hfc, ← hf.answer]
  cases e with
  | none => rfl
  | some e0 =>
    simp only [Option.any_some, Option.bind_some, Coin.IsSpent]
    cases e0.coin.out <;> rfl

end Fetch

section Write

variable {κ α : Type} [LinearOrder κ] (scriptUsage : α → Nat) (isUnspendable : α → Bool)

theorem flagsInv_addCoin_write {v : CCoinsViewCache κ α} {parent : κ → Option α} (hv : FlagsInv v parent) {k : κ}
    (o : α) {fresh : Bool} (hf : fresh = true → parent k = none) (u : UInt64) :
    FlagsInv ⟨v.cacheCoins.write k ⟨⟨some o, scriptUsage o⟩, true, fresh⟩, u⟩ parent ∧
      viewOver parent [⟨v.cacheCoins.write k ⟨⟨some o, scriptUsage o⟩, true, fresh⟩, u⟩] =
        Function.update (viewOver parent [v]) k (some o) := by
  refine ⟨hv.write (fun hd => absurd hd.symm Bool.false_ne_true) hf u, ?_⟩
  funext j
  rw [viewOver_write_cons, Function.update_apply]

/-- `AddCoin` at a layer over `parent`: a coin that may not overwrite, added
where the layer answers no coin, does not throw, and the layer then answers
the coin at its outpoint; an unspendable coin is not added. -/
theorem addCoin_spec {v : CCoinsViewCache κ α} {parent : κ → Option α} (hv : FlagsInv v parent) {k : κ} {o : α}
    {possibleOverwrite : Bool}
    (hadm : possibleOverwrite = false → isUnspendable o = false → viewOver parent [v] k = none) :
    ∃ v', addCoin scriptUsage isUnspendable v k o possibleOverwrite = .ok v' ∧ FlagsInv v' parent ∧
      viewOver parent [v'] =
        if isUnspendable o then viewOver parent [v] else Function.update (viewOver parent [v]) k (some o) := by
  cases hu : isUnspendable o with
  | true => exact ⟨v, by simp [addCoin, hu], hv, rfl⟩
  | false =>
    have hadm' := fun hpo => hadm hpo hu
    cases hk : v.cacheCoins.get? k with
    | none =>
      -- a new entry: fresh exactly when it may not overwrite
      have hf : (!possibleOverwrite && !false) = true → parent k = none := by
        intro hpo
        have hview : viewOver parent [v] k = parent k := viewOver_cons_of_none hk []
        exact hview ▸ hadm' (by simpa using hpo)
      obtain ⟨hinv, hview⟩ := flagsInv_addCoin_write scriptUsage hv o hf
        (v.cachedCoinsUsage + UInt64.ofNat (scriptUsage o))
      refine ⟨_, ?_, hinv, ?_⟩
      · simp [addCoin, hu, hk, Coin.IsSpent, Coin.empty]
      · simpa using hview
    | some e =>
      -- an entry held: without a possible overwrite it is a spent coin, and
      -- a clean one is the parent's, so the parent has no coin either
      have hspent : possibleOverwrite = false → e.coin.out = none := fun hpo => by
        rw [← viewOver_cons_of_some hk []]
        exact hadm' hpo
      have hf : (e.fresh || (!possibleOverwrite && !e.dirty)) = true → parent k = none := by
        intro h
        rcases Bool.or_eq_true_iff.mp h with hfresh | hclean
        · exact hv.fresh k e hk hfresh
        · obtain ⟨hpo, hd⟩ : possibleOverwrite = false ∧ e.dirty = false := by simpa using hclean
          rw [← hv.clean k e hk hd]
          exact hspent hpo
      obtain ⟨hinv, hview⟩ := flagsInv_addCoin_write scriptUsage hv o hf
        (v.cachedCoinsUsage - UInt64.ofNat e.coin.usage + UInt64.ofNat (scriptUsage o))
      refine ⟨_, ?_, hinv, ?_⟩
      · have hno : (!possibleOverwrite && !e.coin.IsSpent) = false := by
          cases hpo : possibleOverwrite
          · simp [Coin.IsSpent, hspent hpo]
          · rfl
        simp [addCoin, hu, hk, hno]
      · simpa using hview

theorem spendCoin_spec {db : OrderedStore κ α} {v : CCoinsViewCache κ α} {below : List (CCoinsViewCache κ α)}
    (hinv : ChainInv db.get? (v :: below)) (k : κ) (moveout : Option (Coin α)) :
    ∃ v' below', (spendCoin scriptUsage db v below k moveout).1 = (v', below') ∧
      ChainInv db.get? (v' :: below') ∧
      viewOver db.get? (v' :: below') = Function.update (viewOver db.get? (v :: below)) k none := by
  rcases hfc : fetchCoin scriptUsage v k below (getCoin scriptUsage db below k) with ⟨v1, below1, e⟩
  obtain ⟨hget, hf⟩ := fetchCoin_getCoin scriptUsage hinv hfc
  obtain ⟨hv1, hbelow1⟩ := hf.chain
  cases e with
  | none =>
    -- nothing to spend: the chain answered no coin
    refine ⟨v1, below1, by simp only [spendCoin, hfc], hf.chain, ?_⟩
    rw [hf.view]
    exact (Function.update_eq_self_iff.mpr hf.answer).symm
  | some e0 =>
    cases hfresh : e0.fresh with
    | true =>
      -- a fresh entry is erased: the parent has no coin under it
      simp only [spendCoin, hfc, hfresh, if_true]
      refine ⟨_, _, rfl, ⟨hv1.erase k _, hbelow1⟩, ?_⟩
      funext j
      rw [viewOver_erase_cons, Function.update_apply]
      split_ifs with hj
      · rw [hj]
        exact hv1.fresh k e0 hget hfresh
      · exact congrFun hf.view j
    | false =>
      -- any other entry is left spent and dirty
      simp only [spendCoin, hfc, hfresh, Bool.false_eq_true, if_false]
      refine ⟨_, _, rfl, ⟨hv1.write (fun h => absurd h.symm Bool.false_ne_true) (fun h => absurd h Bool.false_ne_true) _,
        hbelow1⟩, ?_⟩
      funext j
      rw [viewOver_write_cons, Function.update_apply]
      split_ifs with hj
      · rfl
      · exact congrFun hf.view j

/-- `AddCoins`' one output at the top of a chain: with `check`, the possible
overwrite is what `HaveCoin` answers; without it, the coinbase flag, which
`coins.h` takes to be the only way an overwrite happens. -/
theorem addCoinOf_spec {db : OrderedStore κ α} {v : CCoinsViewCache κ α} {below : List (CCoinsViewCache κ α)}
    (hinv : ChainInv db.get? (v :: below)) {k : κ} {o : α} {fCoinbase check : Bool}
    (hadm : check = false → fCoinbase = false → isUnspendable o = false → viewOver db.get? (v :: below) k = none) :
    ∃ v' below', addCoinOf scriptUsage isUnspendable db v below k o fCoinbase check = .ok (v', below') ∧
      ChainInv db.get? (v' :: below') ∧
      viewOver db.get? (v' :: below') = if isUnspendable o then viewOver db.get? (v :: below)
        else Function.update (viewOver db.get? (v :: below)) k (some o) := by
  cases check with
  | true =>
    obtain ⟨v1, below1, hhave, hf⟩ := haveCoin_spec scriptUsage hinv k
    obtain ⟨hv1, hbelow1⟩ := hf.chain
    have hadm1 : (viewOver db.get? (v :: below) k).isSome = false → isUnspendable o = false →
        viewOver (viewOver db.get? below1) [v1] k = none := by
      intro hsome _
      rw [← viewOver_cons_eq, hf.view]
      simpa using hsome
    obtain ⟨v2, hadd, hv2, hview⟩ := addCoin_spec scriptUsage isUnspendable hv1 hadm1
    refine ⟨v2, below1, ?_, ⟨hv2, hbelow1⟩, ?_⟩
    · simp only [addCoinOf, hhave, if_true, hadd]
      rfl
    · rw [viewOver_cons_eq, hview, ← viewOver_cons_eq, hf.view]
  | false =>
    obtain ⟨hv, hbelow⟩ := hinv
    have hadm1 : fCoinbase = false → isUnspendable o = false → viewOver (viewOver db.get? below) [v] k = none :=
      fun hpo hu => by
        rw [← viewOver_cons_eq]
        exact hadm rfl hpo hu
    obtain ⟨v2, hadd, hv2, hview⟩ := addCoin_spec scriptUsage isUnspendable hv hadm1
    refine ⟨v2, below, ?_, ⟨hv2, hbelow⟩, ?_⟩
    · simp only [addCoinOf, hadd, Bool.false_eq_true, if_false]
      rfl
    · rw [viewOver_cons_eq, hview, ← viewOver_cons_eq]

theorem spendCoin_found {db : OrderedStore κ α} {v : CCoinsViewCache κ α} {below : List (CCoinsViewCache κ α)}
    (hinv : ChainInv db.get? (v :: below)) {k : κ} {c : α} (hk : viewOver db.get? (v :: below) k = some c)
    (m : Coin α) :
    (spendCoin scriptUsage db v below k (some m)).2.1 = true ∧
      (spendCoin scriptUsage db v below k (some m)).2.2.bind (·.out) = some c := by
  rcases hfc : fetchCoin scriptUsage v k below (getCoin scriptUsage db below k) with ⟨v1, below1, e⟩
  obtain ⟨-, hf⟩ := fetchCoin_getCoin scriptUsage hinv hfc
  have he := hf.answer.trans hk
  cases e with
  | none => exact absurd he (by simp)
  | some e0 =>
    cases hfresh : e0.fresh
    · simp only [spendCoin, hfc, hfresh, Bool.false_eq_true, if_false]
      exact ⟨trivial, he⟩
    · simp only [spendCoin, hfc, hfresh, if_true]
      exact ⟨trivial, he⟩

/-- The loop of `AddCoins` without `check`, over outputs whose outpoints are
distinct and hold no coin: it does not throw, and the chain then answers each
output that is not unspendable at its outpoint. -/
theorem addCoins_foldlM_spec (db : OrderedStore κ α) (outpoint : Nat → κ) (fCoinbase : Bool) :
    ∀ (L : List (α × Nat)) {v : CCoinsViewCache κ α} {below : List (CCoinsViewCache κ α)},
      ChainInv db.get? (v :: below) →
      ((L.filter fun e => !isUnspendable e.1).map fun e => outpoint e.2).Nodup →
      (∀ e ∈ L, isUnspendable e.1 = false → viewOver db.get? (v :: below) (outpoint e.2) = none) →
      ∃ v' below', L.foldlM (fun (v, below) (o, i) =>
          addCoinOf scriptUsage isUnspendable db v below (outpoint i) o fCoinbase false) (v, below) =
          .ok (v', below') ∧ ChainInv db.get? (v' :: below') ∧
        viewOver db.get? (v' :: below') = updateAll (viewOver db.get? (v :: below))
          ((L.filter fun e => !isUnspendable e.1).map fun e => (outpoint e.2, some e.1))
  | [], v, below, hinv, _, _ => ⟨v, below, rfl, hinv, rfl⟩
  | (o, i) :: L, v, below, hinv, hnodup, habsent => by
    have hadm : false = false → fCoinbase = false → isUnspendable o = false →
        viewOver db.get? (v :: below) (outpoint i) = none :=
      fun _ _ hu => habsent (o, i) List.mem_cons_self hu
    obtain ⟨v1, below1, h1, hinv1, hview1⟩ := addCoinOf_spec scriptUsage isUnspendable hinv hadm
    -- the later outputs are at other outpoints, where the chain answers as before
    have htail : ((L.filter fun e => !isUnspendable e.1).map fun e => outpoint e.2).Nodup ∧
        (∀ e ∈ L, isUnspendable e.1 = false → viewOver db.get? (v1 :: below1) (outpoint e.2) = none) := by
      cases hu : isUnspendable o
      · rw [List.filter_cons_of_pos (by simp [hu]), List.map_cons, List.nodup_cons] at hnodup
        refine ⟨hnodup.2, fun e he heu => ?_⟩
        have hne : outpoint e.2 ≠ outpoint i := fun h => hnodup.1 (List.mem_map.mpr
          ⟨e, List.mem_filter.mpr ⟨he, by simp [heu]⟩, h⟩)
        rw [hview1, hu, if_neg Bool.false_ne_true, Function.update_of_ne hne]
        exact habsent e (List.mem_cons_of_mem _ he) heu
      · rw [List.filter_cons_of_neg (by simp [hu])] at hnodup
        refine ⟨hnodup, fun e he heu => ?_⟩
        rw [hview1, hu, if_pos rfl]
        exact habsent e (List.mem_cons_of_mem _ he) heu
    obtain ⟨v', below', hfold, hinv', hview'⟩ := addCoins_foldlM_spec db outpoint fCoinbase L hinv1 htail.1 htail.2
    refine ⟨v', below', ?_, hinv', ?_⟩
    · rw [List.foldlM_cons]
      dsimp only
      rw [h1]
      exact hfold
    · rw [hview', hview1]
      cases hu : isUnspendable o
      · rw [if_neg Bool.false_ne_true, List.filter_cons_of_pos (by simp [hu]), List.map_cons, updateAll_cons]
      · rw [if_pos rfl, List.filter_cons_of_neg (by simp [hu])]

theorem uncache_spec {v : CCoinsViewCache κ α} {parent : κ → Option α} (hv : FlagsInv v parent) (k : κ) :
    FlagsInv (uncache v k) parent ∧ viewOver parent [uncache v k] = viewOver parent [v] := by
  unfold uncache
  cases hk : v.cacheCoins.get? k with
  | none => exact ⟨hv, rfl⟩
  | some e =>
    dsimp only
    split_ifs with hflags
    · obtain ⟨hd, -⟩ : e.dirty = false ∧ e.fresh = false := by simpa using hflags
      refine ⟨hv.erase k _, funext fun j => ?_⟩
      rw [viewOver_erase_cons]
      split_ifs with hj
      · rw [hj]
        exact (hv.viewOver_of_clean hk hd).symm
      · rfl
    · exact ⟨hv, rfl⟩

theorem batchWrite_cons (p : CCoinsViewCache κ α) (k : κ) (e : CCoinsCacheEntry α)
    (rest : List (κ × CCoinsCacheEntry α)) :
    batchWrite p ((k, e) :: rest) = batchWriteEntry p k e >>= fun p' => batchWrite p' rest := rfl

/-- One entry of a child's map written into the layer `p` over `parent`, the
entry's flags meaning what they say over `p`: it does not throw, and the layer
then answers the entry's coin at its key and as before elsewhere. -/
theorem batchWriteEntry_spec {p : CCoinsViewCache κ α} {parent : κ → Option α} (hp : FlagsInv p parent) {k : κ}
    {e : CCoinsCacheEntry α} (hclean : e.dirty = false → e.coin.out = viewOver parent [p] k)
    (hfresh : e.fresh = true → viewOver parent [p] k = none) :
    ∃ p', batchWriteEntry p k e = .ok p' ∧ FlagsInv p' parent ∧ viewOver parent [p'] k = e.coin.out ∧
      ∀ j, j ≠ k → viewOver parent [p'] j = viewOver parent [p] j := by
  cases hd : e.dirty with
  | false => exact ⟨p, by simp [batchWriteEntry, hd], hp, (hclean hd).symm, fun _ _ => rfl⟩
  | true =>
    cases hk : p.cacheCoins.get? k with
    | none =>
      have hparent : viewOver parent [p] k = parent k := viewOver_cons_of_none hk []
      by_cases hskip : (e.fresh && e.coin.IsSpent) = true
      · -- a fresh spent coin the layer does not hold need not go up
        obtain ⟨hf, hs⟩ : e.fresh = true ∧ e.coin.out = none := by simpa [Coin.IsSpent] using hskip
        refine ⟨p, by simp [batchWriteEntry, hd, hk, hskip], hp, ?_, fun _ _ => rfl⟩
        rw [hfresh hf, hs]
      · refine ⟨⟨p.cacheCoins.write k ⟨e.coin, true, e.fresh⟩, p.cachedCoinsUsage + UInt64.ofNat e.coin.usage⟩,
          by simp [batchWriteEntry, hd, hk, hskip],
          hp.write (fun h => absurd h.symm Bool.false_ne_true) (fun hf => hparent ▸ hfresh hf) _, ?_, ?_⟩
        · rw [viewOver_write_cons, if_pos rfl]
        · intro j hj
          rw [viewOver_write_cons, if_neg hj]
    | some ours =>
      have hours : viewOver parent [p] k = ours.coin.out := viewOver_cons_of_some hk []
      -- under a fresh entry of the child the layer's coin is spent: no throw
      have hno : (e.fresh && !ours.coin.IsSpent) = false := by
        cases hf : e.fresh
        · rfl
        · simp [Coin.IsSpent, ← hours, hfresh hf]
      by_cases herase : (ours.fresh && e.coin.IsSpent) = true
      · obtain ⟨hof, hs⟩ : ours.fresh = true ∧ e.coin.out = none := by simpa [Coin.IsSpent] using herase
        refine ⟨⟨p.cacheCoins.erase k, p.cachedCoinsUsage - UInt64.ofNat ours.coin.usage⟩,
          by simp [batchWriteEntry, hd, hk, hno, herase], hp.erase k _, ?_, ?_⟩
        · rw [viewOver_erase_cons, if_pos rfl, hs]
          exact hp.fresh k ours hk hof
        · intro j hj
          rw [viewOver_erase_cons, if_neg hj]
      · refine ⟨⟨p.cacheCoins.write k ⟨e.coin, true, ours.fresh⟩,
            p.cachedCoinsUsage - UInt64.ofNat ours.coin.usage + UInt64.ofNat e.coin.usage⟩,
          by simp [batchWriteEntry, hd, hk, hno, herase],
          hp.write (e := ⟨e.coin, true, ours.fresh⟩) (fun h => absurd h.symm Bool.false_ne_true)
            (fun hf => hp.fresh k ours hk hf) _, ?_, ?_⟩
        · rw [viewOver_write_cons, if_pos rfl]
        · intro j hj
          rw [viewOver_write_cons, if_neg hj]

/-- `BatchWrite` of a child's map, in increasing order of key, into the layer
`p` over `parent`: it does not throw, and the layer then answers the child's
coin wherever the child holds an entry, and as before elsewhere. -/
theorem batchWrite_spec {parent : κ → Option α} {mapCoins : List (κ × CCoinsCacheEntry α)}
    (hsorted : mapCoins.Pairwise (fun a b => a.1 < b.1)) {p : CCoinsViewCache κ α} (hp : FlagsInv p parent)
    (hentries : ∀ k e, (k, e) ∈ mapCoins →
      (e.dirty = false → e.coin.out = viewOver parent [p] k) ∧ (e.fresh = true → viewOver parent [p] k = none)) :
    ∃ p', batchWrite p mapCoins = .ok p' ∧ FlagsInv p' parent ∧
      ∀ j, viewOver parent [p'] j = (mapCoins.lookup j).elim (viewOver parent [p] j) (·.coin.out) := by
  induction mapCoins generalizing p with
  | nil => exact ⟨p, rfl, hp, fun _ => rfl⟩
  | cons entry rest ih =>
    obtain ⟨k, e⟩ := entry
    obtain ⟨hclean, hfresh⟩ := hentries k e List.mem_cons_self
    obtain ⟨p1, h1, hp1, hk1, hother⟩ := batchWriteEntry_spec hp hclean hfresh
    -- the later entries are at greater keys, where `p1` answers as `p`
    have hne : ∀ k' e', (k', e') ∈ rest → k' ≠ k := fun k' e' h => ne_of_gt (List.rel_of_pairwise_cons hsorted h)
    obtain ⟨p', h', hp', hview⟩ := ih hsorted.of_cons hp1 fun k' e' h => by
      rw [hother k' (hne k' e' h)]
      exact hentries k' e' (List.mem_cons_of_mem _ h)
    refine ⟨p', by rw [batchWrite_cons, h1]; exact h', hp', fun j => ?_⟩
    rw [hview j, OrderedStore.lookup_cons_eq_ite]
    by_cases hj : j = k
    · subst hj
      rw [if_pos rfl, OrderedStore.lookup_eq_none_of_lt fun e he => List.rel_of_pairwise_cons hsorted he]
      exact hk1
    · rw [if_neg hj, hother j hj]

theorem get?_batchWriteDB (db : OrderedStore κ α) (s : OrderedStore κ (CCoinsCacheEntry α)) (j : κ) :
    (batchWriteDB db s.entries).get? j = (s.get? j).elim (db.get? j) fun e => if e.dirty then e.coin.out else db.get? j := by
  refine OrderedStore.get?_foldl_of_local _ (fun e old => if e.dirty then e.coin.out else old) ?_ ?_ s.sorted db j
  · intro db' k e
    dsimp only
    cases e.dirty <;> cases e.coin.out <;> simp
  · intro db' k e k' hk
    dsimp only
    cases e.dirty <;> cases e.coin.out <;> simp [hk]

theorem flush_spec {db : OrderedStore κ α} {v : CCoinsViewCache κ α} {below : List (CCoinsViewCache κ α)}
    (hinv : ChainInv db.get? (v :: below)) :
    ∃ db' below', flush db v below = .ok (db', .empty :: below') ∧ ChainInv db'.get? below' ∧
      viewOver db'.get? below' = viewOver db.get? (v :: below) := by
  obtain ⟨hv, hbelow⟩ := hinv
  cases below with
  | nil =>
    refine ⟨_, [], rfl, trivial, funext fun j => ?_⟩
    show (batchWriteDB db v.cacheCoins.entries).get? j = viewOver db.get? [v] j
    rw [get?_batchWriteDB, viewOver_cons]
    cases hj : v.cacheCoins.get? j with
    | none => rfl
    | some e =>
      show (if e.dirty = true then e.coin.out else db.get? j) = e.coin.out
      by_cases hd : e.dirty = true
      · rw [if_pos hd]
      · rw [if_neg hd]
        exact (hv.clean j e hj (by simpa using hd)).symm
  | cons p rest =>
    obtain ⟨hp, hrest⟩ := hbelow
    rw [viewOver_cons_eq] at hv
    obtain ⟨p', hbw, hp', hview⟩ := batchWrite_spec v.cacheCoins.sorted hp fun k e he =>
      ⟨hv.clean k e (OrderedStore.get?_of_mem he), hv.fresh k e (OrderedStore.get?_of_mem he)⟩
    refine ⟨db, p' :: rest, by simp only [flush, hbw]; rfl, ⟨hp', hrest⟩, funext fun j => ?_⟩
    rw [viewOver_cons_eq, hview j, viewOver_cons_eq db.get? v, viewOver_cons_eq db.get? p]
    exact (viewOver_cons (viewOver (viewOver db.get? rest) [p]) v [] j).symm

end Write

section Flat

variable {κ α : Type} [LinearOrder κ] (isUnspendable : α → Bool)

/-- What an operation does to one flat map of coins: an addition puts the
coin at its outpoint unless its script is unspendable, a spend takes the coin
away, and reads, `Uncache` and `Flush` change nothing. -/
def flatStep (m : κ → Option α) : CoinsOp κ α → κ → Option α
  | .addCoin k o _ _ => if isUnspendable o then m else Function.update m k (some o)
  | .spendCoin k _ => Function.update m k none
  | .fetch .. | .uncache .. | .flush _ => m

def flatRun (m : κ → Option α) (ops : List (CoinsOp κ α)) : κ → Option α :=
  ops.foldl (flatStep isUnspendable) m

/-- The additions `coins.h` allows: one that may not overwrite ("Set
potential_overwrite to true if a non-pruned version may already exist";
without `check`, "overwrites are only possible for coinbase transactions") is
of a coin the map does not have. -/
def admissible (m : κ → Option α) : CoinsOp κ α → Bool
  | .addCoin k o fCoinbase check => check || fCoinbase || isUnspendable o || (m k).isNone
  | _ => true

def admissibleRun : (κ → Option α) → List (CoinsOp κ α) → Bool
  | _, [] => true
  | m, op :: ops => admissible isUnspendable m op && admissibleRun (flatStep isUnspendable m op) ops

end Flat

section Run

variable {κ α : Type} [LinearOrder κ] (scriptUsage : α → Nat) (isUnspendable : α → Bool)

/-- The coins the top of the chain answers for. -/
def CoinsState.view (s : CoinsState κ α) : κ → Option α := viewOver s.db.get? s.layers

/-- A chain with a top layer, where additions and spends go, whose flags all
mean what they say. -/
structure CoinsInv (s : CoinsState κ α) : Prop where
  top : s.layers ≠ []
  chain : ChainInv s.db.get? s.layers

/-- What an operation on one layer, given the database and the layers below,
must do for the chain to answer as before: succeed, and leave in their place
layers whose flags mean what they say and which answer as they did. -/
def KeepsView (f : OrderedStore κ α → CCoinsViewCache κ α → List (CCoinsViewCache κ α) →
    Except String (OrderedStore κ α × List (CCoinsViewCache κ α))) : Prop :=
  ∀ db v below, ChainInv db.get? (v :: below) →
    ∃ db' rest, f db v below = .ok (db', rest) ∧ rest ≠ [] ∧ ChainInv db'.get? rest ∧
      viewOver db'.get? rest = viewOver db.get? (v :: below)

theorem onLayer_of_drop_eq {s : CoinsState κ α} {i : Nat} {v : CCoinsViewCache κ α}
    {below : List (CCoinsViewCache κ α)} (h : s.layers.drop i = v :: below)
    (f : OrderedStore κ α → CCoinsViewCache κ α → List (CCoinsViewCache κ α) →
      Except String (OrderedStore κ α × List (CCoinsViewCache κ α))) :
    onLayer s i f = (f s.db v below).map fun r => ⟨r.1, s.layers.take i ++ r.2⟩ := by
  unfold onLayer
  rw [h]

theorem onLayer_zero {s : CoinsState κ α} {v : CCoinsViewCache κ α} {below : List (CCoinsViewCache κ α)}
    (h : s.layers = v :: below)
    (f : OrderedStore κ α → CCoinsViewCache κ α → List (CCoinsViewCache κ α) →
      Except String (OrderedStore κ α × List (CCoinsViewCache κ α))) :
    onLayer s 0 f = (f s.db v below).map fun r => ⟨r.1, r.2⟩ := by
  rw [onLayer_of_drop_eq (by rw [List.drop_zero, h]) f, List.take_zero]
  rfl

theorem onLayer_of_keepsView {f : OrderedStore κ α → CCoinsViewCache κ α → List (CCoinsViewCache κ α) →
      Except String (OrderedStore κ α × List (CCoinsViewCache κ α))}
    (hf : KeepsView f) {s : CoinsState κ α} (hs : CoinsInv s) (i : Nat) :
    ∃ s', onLayer s i f = .ok s' ∧ CoinsInv s' ∧ s'.view = s.view := by
  cases hd : s.layers.drop i with
  | nil => exact ⟨s, by unfold onLayer; rw [hd], hs, rfl⟩
  | cons v below =>
    have hsplit : s.layers = s.layers.take i ++ v :: below := by rw [← hd, List.take_append_drop]
    have hchain := hs.chain
    rw [hsplit, chainInv_append] at hchain
    obtain ⟨db', rest, hfeq, hne, hrest, hview⟩ := hf s.db v below hchain.2
    refine ⟨⟨db', s.layers.take i ++ rest⟩, by rw [onLayer_of_drop_eq hd, hfeq]; rfl, ⟨?_, ?_⟩, ?_⟩
    · simp [hne]
    · show ChainInv db'.get? (s.layers.take i ++ rest)
      rw [chainInv_append, hview]
      exact ⟨hchain.1, hrest⟩
    · show viewOver db'.get? (s.layers.take i ++ rest) = viewOver s.db.get? s.layers
      rw [viewOver_append, hview, ← viewOver_append, ← hsplit]

theorem keepsView_fetch (k : κ) :
    KeepsView fun db v below => .ok (db, (getCoin scriptUsage db (v :: below) k).1) := by
  intro db v below hinv
  have hf := getCoin_fetched scriptUsage db k hinv
  exact ⟨db, _, rfl, by rw [getCoin_cons]; exact List.cons_ne_nil _ _, hf.chain, hf.view⟩

theorem keepsView_uncache (k : κ) : KeepsView (κ := κ) (α := α) fun db v below => .ok (db, uncache v k :: below) := by
  intro db v below hinv
  obtain ⟨hv, hbelow⟩ := hinv
  obtain ⟨hv', hview⟩ := uncache_spec hv k
  refine ⟨db, _, rfl, List.cons_ne_nil _ _, ⟨hv', hbelow⟩, ?_⟩
  rw [viewOver_cons_eq, hview, ← viewOver_cons_eq]

theorem keepsView_flush : KeepsView (κ := κ) (α := α) flush := by
  intro db v below hinv
  obtain ⟨db', below', h, hchain, hview⟩ := flush_spec hinv
  exact ⟨db', _, h, List.cons_ne_nil _ _, ⟨flagsInv_empty _, hchain⟩, hview⟩

/-- One operation from a state whose flags mean what they say, admissible
for the flat map the top answers: it does not throw, and the top then answers
what the flat map holds after the operation. -/
theorem step_spec {s : CoinsState κ α} (hs : CoinsInv s) {op : CoinsOp κ α}
    (hadm : admissible isUnspendable s.view op = true) :
    ∃ s', step scriptUsage isUnspendable s op = .ok s' ∧ CoinsInv s' ∧ s'.view = flatStep isUnspendable s.view op := by
  obtain ⟨v, below, hl⟩ := List.exists_cons_of_ne_nil hs.top
  have hinv : ChainInv s.db.get? (v :: below) := hl ▸ hs.chain
  cases op with
  | fetch i k => exact onLayer_of_keepsView (keepsView_fetch scriptUsage k) hs i
  | uncache i k => exact onLayer_of_keepsView (keepsView_uncache k) hs i
  | flush i => exact onLayer_of_keepsView keepsView_flush hs i
  | addCoin k o fCoinbase check =>
    have hadm' : check = false → fCoinbase = false → isUnspendable o = false →
        viewOver s.db.get? (v :: below) k = none := by
      intro hc hcb hu
      simpa [admissible, hc, hcb, hu, CoinsState.view, hl] using hadm
    obtain ⟨v', below', hadd, hchain, hview⟩ := addCoinOf_spec scriptUsage isUnspendable hinv hadm'
    refine ⟨⟨s.db, v' :: below'⟩, ?_, ⟨List.cons_ne_nil _ _, hchain⟩, ?_⟩
    · simp only [step, onLayer_zero hl, hadd]
      rfl
    · simp only [CoinsState.view, hview, flatStep, hl]
  | spendCoin k moveout =>
    obtain ⟨v', below', hspend, hchain, hview⟩ :=
      spendCoin_spec scriptUsage hinv k (if moveout then some Coin.empty else none)
    refine ⟨⟨s.db, v' :: below'⟩, ?_, ⟨List.cons_ne_nil _ _, hchain⟩, ?_⟩
    · simp only [step, onLayer_zero hl, hspend]
      rfl
    · simp only [CoinsState.view, hview, flatStep, hl]

/-- A run of admissible operations from a state whose flags mean what they
say: no operation throws, the flags keep their meaning, and the top answers
what one flat map holds after the same additions and spends. -/
theorem run_spec {s : CoinsState κ α} (hs : CoinsInv s) {ops : List (CoinsOp κ α)}
    (hadm : admissibleRun isUnspendable s.view ops = true) :
    ∃ s', run scriptUsage isUnspendable s ops = .ok s' ∧ CoinsInv s' ∧ s'.view = flatRun isUnspendable s.view ops := by
  induction ops generalizing s with
  | nil => exact ⟨s, rfl, hs, rfl⟩
  | cons op ops ih =>
    obtain ⟨hop, hops⟩ := Bool.and_eq_true_iff.mp hadm
    obtain ⟨s1, hstep, hs1, hview1⟩ := step_spec scriptUsage isUnspendable hs hop
    obtain ⟨s', hrun, hs', hview'⟩ := ih hs1 (hview1 ▸ hops)
    refine ⟨s', ?_, hs', ?_⟩
    · show (step scriptUsage isUnspendable s op >>= fun s1 => run scriptUsage isUnspendable s1 ops) = .ok s'
      rw [hstep]
      exact hrun
    · rw [hview', hview1]
      rfl

/-- After any run of admissible operations from a state whose flags mean
what they say, the run does not throw, the flags still mean what they say,
and `GetCoin` of the top answers at every outpoint what one flat map holds
after the same additions and spends. -/
theorem run_getCoin_eq_flatRun (s : CoinsState κ α) (hs : CoinsInv s) (ops : List (CoinsOp κ α))
    (hadm : admissibleRun isUnspendable s.view ops = true) :
    ∃ s', run scriptUsage isUnspendable s ops = .ok s' ∧ CoinsInv s' ∧
      ∀ k, (getCoin scriptUsage s'.db s'.layers k).2 = flatRun isUnspendable s.view ops k := by
  obtain ⟨s', hrun, hs', hview⟩ := run_spec scriptUsage isUnspendable hs hadm
  refine ⟨s', hrun, hs', fun k => ?_⟩
  rw [(getCoin_fetched scriptUsage s'.db k hs'.chain).answer, ← hview]
  rfl

theorem run_getCoin_eq_flatRun_of_add_flush_spend :
    CoinsInv (⟨.empty, [.empty, .empty]⟩ : CoinsState Nat Nat) ∧
    admissibleRun (fun _ => false) (CoinsState.view ⟨.empty, [.empty, .empty]⟩)
      [.addCoin 1 5 false false, .flush 0, .spendCoin 1 true, .addCoin 1 6 false true, .flush 1] = true ∧
    ∃ s', run (fun _ => 0) (fun _ => false) ⟨.empty, [.empty, .empty]⟩
        [.addCoin 1 5 false false, .flush 0, .spendCoin 1 true, .addCoin 1 6 false true, .flush 1] = .ok s' ∧
      CoinsInv s' ∧ ∀ k, (getCoin (fun _ => 0) s'.db s'.layers k).2 =
        flatRun (fun _ => false) (CoinsState.view ⟨.empty, [.empty, .empty]⟩)
          [.addCoin 1 5 false false, .flush 0, .spendCoin 1 true, .addCoin 1 6 false true, .flush 1] k := by
  have hs : CoinsInv (⟨.empty, [.empty, .empty]⟩ : CoinsState Nat Nat) :=
    ⟨List.cons_ne_nil _ _, flagsInv_empty _, flagsInv_empty _, trivial⟩
  have hadm : admissibleRun (fun _ => false) (CoinsState.view ⟨.empty, [.empty, .empty]⟩)
      [.addCoin 1 5 false false, .flush 0, .spendCoin 1 true, .addCoin 1 6 false true, .flush 1] = true := by
    decide
  exact ⟨hs, hadm, run_getCoin_eq_flatRun (fun _ => 0) (fun _ => false) _ hs _ hadm⟩

/-- `Flush` of any layer of a chain whose flags mean what they say does not
throw, leaves the layer empty and the flags meaning what they say, and its
parent, or the database under the last layer, then answers at every outpoint
what the layer answered. -/
theorem flush_parent_answers_as_layer (s : CoinsState κ α) (hs : CoinsInv s) {i : Nat} (hi : i < s.layers.length) :
    ∃ s', step scriptUsage isUnspendable s (.flush i) = .ok s' ∧ CoinsInv s' ∧ s'.layers[i]? = some .empty ∧
      viewOver s'.db.get? (s'.layers.drop (i + 1)) = viewOver s.db.get? (s.layers.drop i) := by
  obtain ⟨v, below, hd⟩ := List.exists_cons_of_ne_nil (by simpa using hi : s.layers.drop i ≠ [])
  have hchain : ChainInv s.db.get? (v :: below) := by
    have h := hs.chain
    rw [← List.take_append_drop i s.layers, chainInv_append, hd] at h
    exact h.2
  obtain ⟨db', below', hflush, -, hview⟩ := flush_spec hchain
  have hstep : step scriptUsage isUnspendable s (.flush i) = .ok ⟨db', s.layers.take i ++ .empty :: below'⟩ := by
    show onLayer s i flush = _
    rw [onLayer_of_drop_eq hd, hflush]
    rfl
  obtain ⟨s', hstep', hs', -⟩ := onLayer_of_keepsView keepsView_flush hs i
  have hlen : (s.layers.take i).length = i := List.length_take_of_le hi.le
  refine ⟨_, hstep, ?_, ?_, ?_⟩
  · rw [show step scriptUsage isUnspendable s (.flush i) = onLayer s i flush from rfl, hstep'] at hstep
    cases hstep
    exact hs'
  · rw [List.getElem?_append_right hlen.le, hlen, Nat.sub_self]
    rfl
  · show viewOver db'.get? ((s.layers.take i ++ .empty :: below').drop (i + 1)) = _
    rw [List.drop_append, List.drop_eq_nil_of_le (by omega), List.nil_append, hlen,
      Nat.add_sub_cancel_left, List.drop_succ_cons, List.drop_zero, hview, hd]

/-- A flush of a middle layer holding a spent coin, dirty, that the database
has, and a new coin, dirty and fresh, that it has not. -/
theorem flush_parent_answers_as_layer_of_dirty_and_fresh :
    let setup : List (CoinsOp Nat Nat) :=
      [.addCoin 1 5 false false, .flush 0, .flush 1, .addCoin 2 6 false false, .spendCoin 1 true, .flush 0]
    ∃ s, run (fun _ => 0) (fun _ => false) ⟨.empty, [.empty, .empty]⟩ setup = .ok s ∧ CoinsInv s ∧
      s.layers.length = 2 ∧
      (s.layers[1]?.map fun v => v.cacheCoins.entries.map fun e => (e.1, e.2.coin.out, e.2.dirty, e.2.fresh)) =
        some [(1, none, true, false), (2, some 6, true, true)] ∧
      ∃ s', step (fun _ => 0) (fun _ => false) s (.flush 1) = .ok s' ∧ CoinsInv s' ∧
        s'.layers[1]? = some .empty ∧ viewOver s'.db.get? (s'.layers.drop 2) = viewOver s.db.get? (s.layers.drop 1) := by
  intro setup
  have hs0 : CoinsInv (⟨.empty, [.empty, .empty]⟩ : CoinsState Nat Nat) :=
    ⟨List.cons_ne_nil _ _, flagsInv_empty _, flagsInv_empty _, trivial⟩
  have hadm : admissibleRun (fun _ => false) (CoinsState.view ⟨.empty, [.empty, .empty]⟩) setup = true := by
    decide
  obtain ⟨s, hrun, hs, -⟩ := run_spec (fun _ => 0) (fun _ => false) hs0 hadm
  -- the layers the setup leaves, read off its run
  have hlength : ((run (fun _ => 0) (fun _ => false) ⟨.empty, [.empty, .empty]⟩ setup).toOption.map fun s =>
      s.layers.length) = some 2 := by
    decide
  have hentries : ((run (fun _ => 0) (fun _ => false) ⟨.empty, [.empty, .empty]⟩ setup).toOption.bind fun s =>
      s.layers[1]?.map fun v => v.cacheCoins.entries.map fun e => (e.1, e.2.coin.out, e.2.dirty, e.2.fresh)) =
      some [(1, none, true, false), (2, some 6, true, true)] := by
    decide
  rw [hrun] at hlength hentries
  simp only [Except.toOption, Option.map_some, Option.bind_some, Option.some.injEq] at hlength hentries
  exact ⟨s, hrun, hs, hlength, hentries,
    flush_parent_answers_as_layer (fun _ => 0) (fun _ => false) s hs (i := 1) (by omega)⟩

end Run

end YuPost.Coins
