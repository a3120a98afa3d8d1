import YuPost.Chain.BlockIndex

/-! `GetAncestor` agrees with walking `pprev` in every block index that
`AddToBlockIndex` builds, and `LastCommonAncestor` and `FindFork`, which walk
up from where it leaves them, find the last common ancestor. What carries it is
that every skip pointer is the ancestor at its entry's skip height. `BuildSkip`
sets the pointer with `GetAncestor` itself, over the entries already there, so
the two facts are proved together, entry after entry. -/

namespace YuPost.Chain

open YuPost.Lib

section Walks

variable {t : BlockTree}

/-- Every skip pointer points to the ancestor at its entry's skip height. -/
def SkipsSound (t : BlockTree) : Prop :=
  ∀ i s, (t.get i).pskip = some s →
    walkUp t.pprev (t.nHeight i - GetSkipHeight (t.nHeight i)) i = some s

/-- What every index `AddToBlockIndex` builds keeps: heights count the `pprev`
steps to a root, and skip pointers are sound. -/
structure TreeInv (t : BlockTree) : Prop where
  depth : IsDepth t.pprev t.nHeight
  skips : SkipsSound t

theorem followsSkip_le {height heightWalk : Nat} (h : followsSkip height heightWalk = true) :
    height ≤ GetSkipHeight heightWalk := by
  simp [followsSkip] at h
  omega

theorem getAncestorLoop_eq_walkUp (ht : TreeInv t) (height : Nat) (p heightWalk : Nat) :
    t.nHeight p = heightWalk → height ≤ heightWalk →
      getAncestorLoop t height p heightWalk = walkUp t.pprev (heightWalk - height) p := by
  induction p, heightWalk using getAncestorLoop.induct t height with
  | case1 p hw hgt s hfilt ih =>
    intro hp hh
    obtain ⟨hskip, hfollow⟩ := Option.filter_eq_some_iff.mp hfilt
    have hle := followsSkip_le hfollow
    have hlt := GetSkipHeight_lt hw (by omega)
    have hws := ht.skips p s hskip
    rw [hp] at hws
    have hds : t.nHeight s = GetSkipHeight hw := by
      have := depth_walkUp ht.depth hws
      omega
    rw [getAncestorLoop, if_pos hgt, hfilt]
    simp only
    rw [ih hds hle, show hw - height = (hw - GetSkipHeight hw) + (GetSkipHeight hw - height) by omega,
    walkUp_add, hws, Option.bind_some]
  | case2 p hw hgt hfilt q hq ih =>
    intro hp hh
    have hdq := ht.depth.step p q hq
    rw [getAncestorLoop, if_pos hgt, hfilt]
    simp only [hq]
    rw [ih (by omega) (by omega), show hw - height = (hw - 1 - height) + 1 by omega, walkUp_succ]
    simp [BlockTree.pprev, hq]
  | case3 p hw hgt hfilt hq =>
    -- a root is at height 0, below no `height`
    intro hp hh
    have := ht.depth.root p hq
    omega
  | case4 p hw hle =>
    intro _ hh
    rw [getAncestorLoop, if_neg hle, show hw - height = 0 by omega]
    rfl

theorem getAncestor_eq_walkUp (ht : TreeInv t) {b : Nat} {h : Int} (h0 : 0 ≤ h) (hle : h ≤ t.nHeight b) :
    GetAncestor t b h = walkUp t.pprev (t.nHeight b - h.toNat) b := by
  simp only [BlockTree.nHeight] at hle ⊢
  rw [GetAncestor, if_neg (by omega)]
  exact getAncestorLoop_eq_walkUp ht _ _ _ rfl (by omega)

theorem getAncestor_eq_none {b : Nat} {h : Int} (hout : h < 0 ∨ t.nHeight b < h) : GetAncestor t b h = none := by
  simp only [BlockTree.nHeight] at hout
  rw [GetAncestor, if_pos (by omega)]

end Walks

section Build

variable {t : BlockTree} {miPrev : Option (Fin t.blocks.length)}

theorem get_addToBlockIndex (i : Nat) :
    (AddToBlockIndex t miPrev).get i =
      if i < t.blocks.length then t.get i else if i = t.blocks.length then newEntry t miPrev else .new :=
  t.get_push _ i

theorem get_addToBlockIndex_of_lt {i : Nat} (hi : i < t.blocks.length) :
    (AddToBlockIndex t miPrev).get i = t.get i := by
  rw [get_addToBlockIndex, if_pos hi]

theorem walkUp_addToBlockIndex_of_lt (n : Nat) {i : Nat} (hi : i < t.blocks.length) :
    walkUp (AddToBlockIndex t miPrev).pprev n i = walkUp t.pprev n i := by
  induction n generalizing i with
  | zero => rfl
  | succ n ih =>
    have hp : (AddToBlockIndex t miPrev).pprev i = t.pprev i := by
      simp only [BlockTree.pprev, get_addToBlockIndex_of_lt hi]
    rw [walkUp_succ, walkUp_succ, hp]
    cases hq : t.pprev i with
    | none => rfl
    | some q => exact ih (Nat.lt_trans (BlockTree.pprev_lt_self hq) hi)

theorem newEntry_some (p : Fin t.blocks.length) :
    newEntry t (some p) = ⟨some p.val, GetAncestor t p.val (GetSkipHeight (t.nHeight p.val + 1)), t.nHeight p.val + 1⟩ :=
  rfl

theorem isDepth_addToBlockIndex (hd : IsDepth t.pprev t.nHeight) :
    IsDepth (AddToBlockIndex t miPrev).pprev (AddToBlockIndex t miPrev).nHeight := by
  constructor
  · intro i hi
    simp only [BlockTree.pprev, BlockTree.nHeight, get_addToBlockIndex] at hi ⊢
    split_ifs at hi ⊢ with hlt heq
    · exact hd.root i hi
    · cases miPrev with
      | none => rfl
      | some p => simp [newEntry_some] at hi
    · rfl
  · intro i j hij
    have hj : (AddToBlockIndex t miPrev).nHeight j = t.nHeight j := by
      have hji : j < i := BlockTree.pprev_lt_self hij
      simp only [BlockTree.pprev, get_addToBlockIndex] at hij
      simp only [BlockTree.nHeight, get_addToBlockIndex]
      split_ifs at hij with hlt heq
      · rw [if_pos (Nat.lt_trans hji hlt)]
      · rw [if_pos (heq ▸ hji)]
      · simp [CBlockIndex.new] at hij
    rw [hj]
    simp only [BlockTree.pprev, BlockTree.nHeight, get_addToBlockIndex] at hij ⊢
    split_ifs at hij ⊢ with hlt heq
    · exact hd.step i j hij
    · -- the new entry is one above its parent
      cases miPrev with
      | none => simp [newEntry, CBlockIndex.new] at hij
      | some p =>
        simp only [newEntry_some, Option.some.injEq] at hij ⊢
        rw [← hij]
        rfl
    · simp [CBlockIndex.new] at hij

theorem skipsSound_addToBlockIndex (ht : TreeInv t) : SkipsSound (AddToBlockIndex t miPrev) := by
  intro i s hs
  by_cases hlt : i < t.blocks.length
  · rw [get_addToBlockIndex_of_lt hlt] at hs
    have hn : (AddToBlockIndex t miPrev).nHeight i = t.nHeight i := by
      simp only [BlockTree.nHeight, get_addToBlockIndex_of_lt hlt]
    rw [hn, walkUp_addToBlockIndex_of_lt _ hlt]
    exact ht.skips i s hs
  · rw [get_addToBlockIndex, if_neg hlt] at hs
    split_ifs at hs with heq
    · subst heq
      cases miPrev with
      | none => simp [newEntry, CBlockIndex.new] at hs
      | some p =>
        -- `BuildSkip` asked `GetAncestor` of the parent, over the old index
        have hskip := GetSkipHeight_lt (t.nHeight p + 1) (by omega)
        simp only [newEntry_some] at hs
        rw [getAncestor_eq_walkUp ht (by omega) (by omega), Int.toNat_natCast] at hs
        have hn : (AddToBlockIndex t (some p)).nHeight t.blocks.length = t.nHeight p + 1 := by
          simp [BlockTree.nHeight, get_addToBlockIndex, newEntry_some]
        have hpp : (AddToBlockIndex t (some p)).pprev t.blocks.length = some p.val := by
          simp [BlockTree.pprev, get_addToBlockIndex, newEntry_some]
        rw [hn, show t.nHeight p + 1 - GetSkipHeight (t.nHeight p + 1) =
            (t.nHeight p - GetSkipHeight (t.nHeight p + 1)) + 1 by omega,
          walkUp_succ, hpp, Option.bind_some, walkUp_addToBlockIndex_of_lt _ p.isLt]
        exact hs
    · simp [CBlockIndex.new] at hs

theorem treeInv_addToBlockIndex (ht : TreeInv t) : TreeInv (AddToBlockIndex t miPrev) :=
  ⟨isDepth_addToBlockIndex ht.depth, skipsSound_addToBlockIndex ht⟩

theorem treeInv_empty : TreeInv BlockTree.empty := by
  have hget : ∀ i, BlockTree.empty.get i = .new := fun i => by simp [BlockTree.get, BlockTree.empty]
  refine ⟨⟨fun i _ => by simp [BlockTree.nHeight, hget, CBlockIndex.new], fun i j h => ?_⟩, fun i s h => ?_⟩
  · simp [BlockTree.pprev, hget, CBlockIndex.new] at h
  · simp [hget, CBlockIndex.new] at h

theorem Built.treeInv {t : BlockTree} (h : Built t) : TreeInv t := by
  induction h with
  | empty => exact treeInv_empty
  | add miPrev _ ih => exact treeInv_addToBlockIndex ih

end Build

section Common

variable {t : BlockTree}

/-- Over two entries of one height the loop of `LastCommonAncestor` walks both
in step, and stops at the first walk length where they meet, both at one entry
or both past a root. -/
theorem lastCommonLoop_walkUp (hd : IsDepth t.pprev t.nHeight) {a b : Nat} (hab : t.nHeight a = t.nHeight b)
    (pa pb : Option Nat) (k : Nat) (ha : pa = walkUp t.pprev k a) (hb : pb = walkUp t.pprev k b)
    (hfirst : ∀ m < k, walkUp t.pprev m a ≠ walkUp t.pprev m b) :
    ∃ K, lastCommonLoop t pa pb = (walkUp t.pprev K a, walkUp t.pprev K b) ∧
      walkUp t.pprev K a = walkUp t.pprev K b ∧ ∀ m < K, walkUp t.pprev m a ≠ walkUp t.pprev m b := by
  -- both walks reach as far: the entries are at one height
  have hsome : (walkUp t.pprev k a).isSome = (walkUp t.pprev k b).isSome := by
    rw [Bool.eq_iff_iff, isSome_walkUp_iff hd, isSome_walkUp_iff hd, hab]
  induction pa, pb using lastCommonLoop.induct t generalizing k with
  | case1 pb =>
    have hbn : pb = none := by
      rw [hb, ← Option.not_isSome_iff_eq_none, ← hsome, ← ha]
      simp
    refine ⟨k, by rw [lastCommonLoop, ha, hb], by rw [← ha, ← hb, hbn], hfirst⟩
  | case2 x =>
    rw [← ha, ← hb] at hsome
    simp at hsome
  | case3 x =>
    exact ⟨k, by rw [lastCommonLoop, if_pos rfl, ← ha, ← hb], by rw [← ha, ← hb], hfirst⟩
  | case4 x y hxy ih =>
    -- one step further: the next walk length, where they still differ at `k`
    have hnext : ∀ m < k + 1, walkUp t.pprev m a ≠ walkUp t.pprev m b := by
      intro m hm
      rcases Nat.lt_succ_iff_lt_or_eq.mp hm with hm | rfl
      · exact hfirst m hm
      · rw [← ha, ← hb]
        simpa using hxy
    have ha' : (t.get x).pprev = walkUp t.pprev (k + 1) a := by rw [walkUp_succ', ← ha]; rfl
    have hb' : (t.get y).pprev = walkUp t.pprev (k + 1) b := by rw [walkUp_succ', ← hb]; rfl
    have hsome' : (walkUp t.pprev (k + 1) a).isSome = (walkUp t.pprev (k + 1) b).isSome := by
      rw [Bool.eq_iff_iff, isSome_walkUp_iff hd, isSome_walkUp_iff hd, hab]
    obtain ⟨K, hK, hmeet, hK'⟩ := ih (k + 1) ha' hb' hnext hsome'
    exact ⟨K, by rw [lastCommonLoop, if_neg hxy, hK], hmeet, hK'⟩

theorem lastCommon_start (ht : TreeInv t) (a b : Nat) :
    ∃ a' b', (if t.nHeight a > t.nHeight b then GetAncestor t a (t.nHeight b) else some a) = some a' ∧
      (if t.nHeight a > t.nHeight b then some b
        else if t.nHeight b > t.nHeight a then GetAncestor t b (t.nHeight a) else some b) = some b' ∧
      t.nHeight a' = t.nHeight b' ∧ ∀ x, Common t.pprev a' b' x ↔ Common t.pprev a b x := by
  by_cases hab : t.nHeight a > t.nHeight b
  · obtain ⟨a', ha'⟩ := Option.isSome_iff_exists.mp
      (walkUp_isSome ht.depth (n := t.nHeight a - t.nHeight b) (i := a) (by omega))
    have hda' := depth_walkUp ht.depth ha'
    refine ⟨a', b, ?_, by rw [if_pos hab], by omega, fun x => common_iff_of_walkUp ht.depth ha' (by omega)⟩
    rw [if_pos hab, getAncestor_eq_walkUp ht (by omega) (by omega), Int.toNat_natCast, ha']
  · by_cases hba : t.nHeight b > t.nHeight a
    · obtain ⟨b', hb'⟩ := Option.isSome_iff_exists.mp
        (walkUp_isSome ht.depth (n := t.nHeight b - t.nHeight a) (i := b) (by omega))
      have hdb' := depth_walkUp ht.depth hb'
      refine ⟨a, b', by rw [if_neg hab], ?_, by omega, fun x => ?_⟩
      · rw [if_neg hab, if_pos hba, getAncestor_eq_walkUp ht (by omega) (by omega), Int.toNat_natCast, hb']
      · rw [common_comm, common_comm (a := a)]
        exact common_iff_of_walkUp ht.depth hb' (by omega)
    · exact ⟨a, b, by rw [if_neg hab], by rw [if_neg hab, if_neg hba], by omega, fun x => Iff.rfl⟩

theorem lastCommonAncestor_isLastCommon (ht : TreeInv t) (a b : Nat) :
    (∀ j, LastCommonAncestor t a b = some j → IsLastCommon t.pprev t.nHeight a b j) ∧
      (LastCommonAncestor t a b = none → ∀ x, ¬ Common t.pprev a b x) := by
  obtain ⟨a', b', ha', hb', hdepth, hcommon⟩ := lastCommon_start ht a b
  have hlca : LastCommonAncestor t a b = (lastCommonLoop t (some a') (some b')).1 := by
    -- `simp` would leave `nHeight` in the decidability instances
    unfold BlockTree.nHeight at ha' hb'
    simp only [LastCommonAncestor]
    rw [ha', hb']
  obtain ⟨K, hK, hmeet, hfirst⟩ :=
    lastCommonLoop_walkUp ht.depth hdepth (some a') (some b') 0 rfl rfl (fun _ h => absurd h (Nat.not_lt_zero _))
  rw [hlca, hK]
  constructor
  · intro j hj
    exact (isLastCommon_congr hcommon).mp (isLastCommon_of_meet ht.depth hdepth hj (hmeet ▸ hj) hfirst)
  · intro hnone x hx
    exact not_common_of_meet ht.depth hdepth hnone hfirst x ((hcommon x).mpr hx)

end Common

section Fork

variable {t : BlockTree} {c : CChain}

theorem CChain.tip_eq_getElem {tip : Nat} (htip : c.Tip = some tip) :
    ∃ hlt : c.vChain.length - 1 < c.vChain.length, c.vChain[c.vChain.length - 1] = tip := by
  rw [CChain.Tip, List.getLast?_eq_getElem?] at htip
  exact List.getElem?_eq_some_iff.mp htip

theorem CChain.IsPath.walkUp_tip (hc : c.IsPath t) {tip : Nat} (htip : c.Tip = some tip) (d : Nat) :
    ∀ h (hh : h + d + 1 = c.vChain.length), walkUp t.pprev d tip = some c.vChain[h] := by
  obtain ⟨hlt, hget⟩ := CChain.tip_eq_getElem htip
  induction d with
  | zero =>
    intro h hh
    obtain rfl : h = c.vChain.length - 1 := by omega
    simp [hget]
  | succ d ih =>
    intro h hh
    rw [walkUp_succ', ih (h + 1) (by omega), Option.bind_some]
    exact hc.link h (by omega)

theorem CChain.IsPath.contains_iff (hc : c.IsPath t) (hd : IsDepth t.pprev t.nHeight) {tip : Nat}
    (htip : c.Tip = some tip) (q : Nat) : c.Contains t q = true ↔ IsAncestor t.pprev q tip := by
  obtain ⟨hlt, hget⟩ := CChain.tip_eq_getElem htip
  have hdt : t.nHeight tip = c.vChain.length - 1 := by
    rw [← hget]
    exact hc.height _ hlt
  simp only [CChain.Contains, beq_iff_eq]
  constructor
  · intro hq
    obtain ⟨hq', hget'⟩ := List.getElem?_eq_some_iff.mp hq
    exact ⟨c.vChain.length - 1 - (t.get q).nHeight, by
      rw [hc.walkUp_tip htip _ (t.get q).nHeight (by omega), hget']⟩
  · rintro ⟨m, hm⟩
    have hdq := depth_walkUp hd hm
    have hw := hc.walkUp_tip htip m (t.nHeight q) (by omega)
    rw [hm] at hw
    exact List.getElem?_eq_some_iff.mpr ⟨_, (Option.some_inj.mp hw).symm⟩

theorem CChain.contains_of_tip_none (htip : c.Tip = none) (q : Nat) : c.Contains t q = false := by
  rw [CChain.Tip, List.getLast?_eq_none_iff] at htip
  simp [CChain.Contains, htip]

theorem findForkLoop_walkUp (p : Nat) (o : Option Nat) (k : Nat) (ho : o = walkUp t.pprev k p)
    (hfirst : ∀ m < k, ∀ y, walkUp t.pprev m p = some y → c.Contains t y = false) :
    ∃ K, c.findForkLoop t o = walkUp t.pprev K p ∧
      (∀ m < K, ∀ y, walkUp t.pprev m p = some y → c.Contains t y = false) ∧
      ∀ y, walkUp t.pprev K p = some y → c.Contains t y = true := by
  induction o using CChain.findForkLoop.induct t c generalizing k with
  | case1 =>
    refine ⟨k, by rw [CChain.findForkLoop]; exact ho, hfirst, fun y hy => ?_⟩
    rw [← ho] at hy
    cases hy
  | case2 q hq =>
    refine ⟨k, by rw [CChain.findForkLoop, if_pos hq]; exact ho, hfirst, fun y hy => ?_⟩
    rw [← ho] at hy
    cases hy
    exact hq
  | case3 q hq ih =>
    have ho' : (t.get q).pprev = walkUp t.pprev (k + 1) p := by
      rw [walkUp_succ', ← ho]
      rfl
    have hnext : ∀ m < k + 1, ∀ y, walkUp t.pprev m p = some y → c.Contains t y = false := by
      intro m hm y hy
      rcases Nat.lt_succ_iff_lt_or_eq.mp hm with hm | rfl
      · exact hfirst m hm y hy
      · rw [← ho] at hy
        cases hy
        simpa using hq
    obtain ⟨K, hK, hfirst', hlast⟩ := ih (k + 1) ho' hnext
    exact ⟨K, by rw [CChain.findForkLoop, if_neg hq, hK], hfirst', hlast⟩

theorem findFork_start (ht : TreeInv t) (hc : c.IsPath t) {tip : Nat} (htip : c.Tip = some tip) (p : Nat) :
    ∃ p', (if (t.get p).nHeight > c.Height then GetAncestor t p c.Height else some p) = some p' ∧
      ∀ x, Common t.pprev p' tip x ↔ Common t.pprev p tip x := by
  obtain ⟨hlt, hget⟩ := CChain.tip_eq_getElem htip
  have hdt : t.nHeight tip = c.vChain.length - 1 := by
    rw [← hget]
    exact hc.height _ hlt
  by_cases hp : (t.get p).nHeight > c.Height
  · -- the chain is not empty: its height is the tip's
    have hH : c.Height = ((c.vChain.length - 1 : Nat) : Int) := by
      simp only [CChain.Height]
      omega
    have hgt : c.vChain.length - 1 < t.nHeight p := by
      simp only [hH, BlockTree.nHeight] at hp ⊢
      omega
    obtain ⟨p', hp'⟩ := Option.isSome_iff_exists.mp
      (walkUp_isSome ht.depth (n := t.nHeight p - (c.vChain.length - 1)) (i := p) (Nat.sub_le _ _))
    have hdp' := depth_walkUp ht.depth hp'
    refine ⟨p', ?_, fun x => common_iff_of_walkUp ht.depth hp' (by omega)⟩
    rw [if_pos hp, getAncestor_eq_walkUp ht (by rw [hH]; omega) (by rw [hH]; omega), hH, Int.toNat_natCast]
    exact hp'
  · exact ⟨p, if_neg hp, fun x => Iff.rfl⟩

theorem findFork_isLastCommon (ht : TreeInv t) (hc : c.IsPath t) (p : Nat) :
    (∀ j, c.FindFork t (some p) = some j → ∃ tip, c.Tip = some tip ∧ IsLastCommon t.pprev t.nHeight p tip j) ∧
      (c.FindFork t (some p) = none → ∀ tip, c.Tip = some tip → ∀ x, ¬ Common t.pprev p tip x) := by
  cases htip : c.Tip with
  | none =>
    -- an empty chain contains nothing: the walk runs past the root
    refine ⟨fun j hj => ?_, fun _ tip h => by cases h⟩
    exfalso
    simp only [CChain.FindFork] at hj
    generalize (if (t.get p).nHeight > c.Height then GetAncestor t p c.Height else some p) = o at hj
    cases o with
    | none => simp [CChain.findForkLoop] at hj
    | some p' =>
      obtain ⟨K, hK, -, hlast⟩ :=
        findForkLoop_walkUp (c := c) p' (some p') 0 rfl (fun _ hm => absurd hm (Nat.not_lt_zero _))
      rw [hK] at hj
      have := hlast j hj
      rw [CChain.contains_of_tip_none htip] at this
      cases this
  | some tip =>
    obtain ⟨p', hp', hcommon⟩ := findFork_start ht hc htip p
    have hff : c.FindFork t (some p) = c.findForkLoop t (some p') := by
      simp only [CChain.FindFork]
      rw [hp']
    obtain ⟨K, hK, hfirst, hlast⟩ :=
      findForkLoop_walkUp (c := c) p' (some p') 0 rfl (fun _ hm => absurd hm (Nat.not_lt_zero _))
    -- on the path above `p'`, the entries off the chain are those not below the tip
    have hfirst' : ∀ m < K, ∀ y, walkUp t.pprev m p' = some y → ¬ IsAncestor t.pprev y tip := by
      intro m hm y hy hanc
      have := (hc.contains_iff ht.depth htip y).mpr hanc
      rw [hfirst m hm y hy] at this
      cases this
    rw [hff, hK]
    refine ⟨fun j hj => ⟨tip, rfl, ?_⟩, fun hnone tip' htip' x hx => ?_⟩
    · exact (isLastCommon_congr hcommon).mp
        (isLastCommon_of_first ht.depth hj ((hc.contains_iff ht.depth htip j).mp (hlast j hj)) hfirst')
    · cases htip'
      exact not_common_of_first hnone hfirst' x ((hcommon x).mpr hx)

end Fork

/-- In every block index `AddToBlockIndex` builds: `GetAncestor` of an entry at
a height in range is the entry that many `pprev` steps back, and null out of
range; its walk ends, as every skip jumps back; and `LastCommonAncestor` and
`FindFork` return the last common ancestor, or null where there is none. -/
theorem getAncestor_walks_pprev (t : BlockTree) (hbuilt : Built t) :
    (∀ (b : Nat) (h : Int), 0 ≤ h → h ≤ t.nHeight b →
      ∃ a, GetAncestor t b h = some a ∧ walkUp t.pprev (t.nHeight b - h.toNat) b = some a) ∧
    (∀ (b : Nat) (h : Int), h < 0 ∨ t.nHeight b < h → GetAncestor t b h = none) ∧
    (∀ n, 1 ≤ n → GetSkipHeight n < n) ∧
    (∀ a b, (∀ j, LastCommonAncestor t a b = some j → IsLastCommon t.pprev t.nHeight a b j) ∧
      (LastCommonAncestor t a b = none → ∀ x, ¬ Common t.pprev a b x)) ∧
    (∀ c : CChain, c.IsPath t → ∀ p,
      (∀ j, c.FindFork t (some p) = some j → ∃ tip, c.Tip = some tip ∧ IsLastCommon t.pprev t.nHeight p tip j) ∧
      (c.FindFork t (some p) = none → ∀ tip, c.Tip = some tip → ∀ x, ¬ Common t.pprev p tip x)) := by
  have ht := hbuilt.treeInv
  refine ⟨fun b h h0 hle => ?_, fun b h hout => getAncestor_eq_none hout, GetSkipHeight_lt,
    lastCommonAncestor_isLastCommon ht, fun c hc p => findFork_isLastCommon ht hc p⟩
  obtain ⟨a, ha⟩ := Option.isSome_iff_exists.mp
    (walkUp_isSome ht.depth (n := t.nHeight b - h.toNat) (i := b) (Nat.sub_le _ _))
  exact ⟨a, by rw [getAncestor_eq_walkUp ht h0 hle, ha], ha⟩

/-- A genesis entry and one child. -/
def genesisAndChild : BlockTree :=
  AddToBlockIndex (AddToBlockIndex BlockTree.empty none) (some ⟨0, by decide⟩)

theorem getAncestor_walks_pprev_of_genesis_and_child :
    Built genesisAndChild ∧
    (∀ (b : Nat) (h : Int), 0 ≤ h → h ≤ genesisAndChild.nHeight b →
      ∃ a, GetAncestor genesisAndChild b h = some a ∧
        walkUp genesisAndChild.pprev (genesisAndChild.nHeight b - h.toNat) b = some a) ∧
    (∀ (b : Nat) (h : Int), h < 0 ∨ genesisAndChild.nHeight b < h → GetAncestor genesisAndChild b h = none) ∧
    (∀ n, 1 ≤ n → GetSkipHeight n < n) ∧
    (∀ a b, (∀ j, LastCommonAncestor genesisAndChild a b = some j →
        IsLastCommon genesisAndChild.pprev genesisAndChild.nHeight a b j) ∧
      (LastCommonAncestor genesisAndChild a b = none → ∀ x, ¬ Common genesisAndChild.pprev a b x)) ∧
    (∀ c : CChain, c.IsPath genesisAndChild → ∀ p,
      (∀ j, c.FindFork genesisAndChild (some p) = some j →
        ∃ tip, c.Tip = some tip ∧ IsLastCommon genesisAndChild.pprev genesisAndChild.nHeight p tip j) ∧
      (c.FindFork genesisAndChild (some p) = none →
        ∀ tip, c.Tip = some tip → ∀ x, ¬ Common genesisAndChild.pprev p tip x)) :=
  have hbuilt : Built genesisAndChild := .add _ (.add _ .empty)
  ⟨hbuilt, getAncestor_walks_pprev genesisAndChild hbuilt⟩

end YuPost.Chain
