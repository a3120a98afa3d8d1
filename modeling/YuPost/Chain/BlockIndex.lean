import YuPost.Lib.ParentWalk

/-! The block index of `chain.h` and `chain.cpp`: its entries with their
`pprev` and `pskip` pointers and heights, the skip list `GetAncestor` walks,
`BuildSkip` as `AddToBlockIndex` runs it on a new entry, `LastCommonAncestor`,
and a `CChain` with `FindFork`. A pointer is an entry's position in the index,
`none` the null pointer; the index only grows, and each `pprev` points to an
entry added before, which is what lets the pointer walks end. Heights are
`int` in the source and never negative here; `GetAncestor` keeps its `int`
argument, which may be. -/

namespace YuPost.Chain

open YuPost.Lib

/-- `CBlockIndex`, with the fields the walks read. -/
structure CBlockIndex where
  pprev : Option Nat
  pskip : Option Nat
  nHeight : Nat
deriving DecidableEq, Repr

/-- An entry as `new CBlockIndex(block)` makes it, before it is linked; it
also stands for what a pointer past the index reads. -/
def CBlockIndex.new : CBlockIndex := ⟨none, none, 0⟩

/-- The entries of the block index in the order they were added; every `pprev`
points to an entry added before. -/
structure BlockTree where
  blocks : List CBlockIndex
  pprev_lt : ∀ i p, (blocks.getD i .new).pprev = some p → p < i

namespace BlockTree

def empty : BlockTree := ⟨[], fun i p h => by simp [CBlockIndex.new] at h⟩

def get (t : BlockTree) (i : Nat) : CBlockIndex := t.blocks.getD i .new

/-- The parent function of the index, that `Lib.walkUp` walks. -/
def pprev (t : BlockTree) (i : Nat) : Option Nat := (t.get i).pprev

def nHeight (t : BlockTree) (i : Nat) : Nat := (t.get i).nHeight

theorem get_push (t : BlockTree) (e : CBlockIndex) (i : Nat) :
    (t.blocks ++ [e]).getD i .new =
      if i < t.blocks.length then t.get i else if i = t.blocks.length then e else .new := by
  simp only [get, List.getD_eq_getElem?_getD]
  split_ifs with hlt heq
  · rw [List.getElem?_append_left hlt]
  · subst heq
    simp
  · rw [List.getElem?_append_right (by omega)]
    simp [show i - t.blocks.length ≠ 0 by omega]

theorem pprev_lt_push (t : BlockTree) (e : CBlockIndex) (he : ∀ p, e.pprev = some p → p < t.blocks.length)
    (i p : Nat) (h : ((t.blocks ++ [e]).getD i .new).pprev = some p) : p < i := by
  rw [get_push] at h
  split_ifs at h with hlt heq
  · exact t.pprev_lt i p h
  · exact heq ▸ he p h
  · simp [CBlockIndex.new] at h

/-- The index with `e` added after its entries. -/
def push (t : BlockTree) (e : CBlockIndex) (he : ∀ p, e.pprev = some p → p < t.blocks.length) : BlockTree :=
  ⟨t.blocks ++ [e], pprev_lt_push t e he⟩

theorem pprev_lt_self {t : BlockTree} {i p : Nat} (h : t.pprev i = some p) : p < i := t.pprev_lt i p h

end BlockTree

/-- `InvertLowestOne`: turn the lowest 1 bit of `n` into a 0. -/
def InvertLowestOne (n : Nat) : Nat := n &&& (n - 1)

/-- `GetSkipHeight`: the height the skip pointer of an entry at `height` jumps
back to. -/
def GetSkipHeight (height : Nat) : Nat :=
  if height < 2 then 0
  else if height &&& 1 ≠ 0 then InvertLowestOne (InvertLowestOne (height - 1)) + 1
  else InvertLowestOne height

theorem InvertLowestOne_le (n : Nat) : InvertLowestOne n ≤ n - 1 := Nat.and_le_right

theorem GetSkipHeight_lt (n : Nat) (h : 1 ≤ n) : GetSkipHeight n < n := by
  unfold GetSkipHeight
  split_ifs with h2 hodd
  · omega
  · have h₁ := InvertLowestOne_le (n - 1)
    have h₂ := InvertLowestOne_le (InvertLowestOne (n - 1))
    omega
  · have := InvertLowestOne_le n
    omega

/-- Whether the walk of `GetAncestor` at `heightWalk` towards `height` takes the
skip pointer, where there is one: only if `pprev->pskip` is not better than
`pskip->pprev`. In `int`, `heightSkip - 2` may be negative where here it is 0;
either way nothing is below it. -/
def followsSkip (height heightWalk : Nat) : Bool :=
  let heightSkip := GetSkipHeight heightWalk
  let heightSkipPrev := GetSkipHeight (heightWalk - 1)
  heightSkip == height ||
    (decide (heightSkip > height) && !(decide (heightSkipPrev < heightSkip - 2) && decide (heightSkipPrev ≥ height)))

/-- The loop of `GetAncestor` from `pindexWalk` at `heightWalk`; `none` where
its `assert(pindexWalk->pprev)` fails. It ends because every step lowers
`heightWalk`: by one, or to `GetSkipHeight heightWalk`. -/
def getAncestorLoop (t : BlockTree) (height pindexWalk heightWalk : Nat) : Option Nat :=
  if heightWalk > height then
    match (t.get pindexWalk).pskip.filter fun _ => followsSkip height heightWalk with
    | some pskip => getAncestorLoop t height pskip (GetSkipHeight heightWalk)
    | none =>
      match (t.get pindexWalk).pprev with
      | some pprev => getAncestorLoop t height pprev (heightWalk - 1)
      | none => none
  else some pindexWalk
termination_by heightWalk
decreasing_by
  · exact GetSkipHeight_lt heightWalk (by omega)
  · omega

/-- `CBlockIndex::GetAncestor` of the entry `b`. -/
def GetAncestor (t : BlockTree) (b : Nat) (height : Int) : Option Nat :=
  if height > (t.get b).nHeight ∨ height < 0 then none
  else getAncestorLoop t height.toNat b (t.get b).nHeight

/-- `CBlockIndex::BuildSkip` on an entry about to be added to `t`. -/
def BuildSkip (t : BlockTree) (e : CBlockIndex) : CBlockIndex :=
  match e.pprev with
  | some pprev => { e with pskip := GetAncestor t pprev (GetSkipHeight e.nHeight) }
  | none => e

/-- The entry `AddToBlockIndex` makes for a header whose parent the index
holds at `miPrev`, if it holds it. -/
def newEntry (t : BlockTree) : Option (Fin t.blocks.length) → CBlockIndex
  | some p => BuildSkip t ⟨some p.val, none, (t.get p.val).nHeight + 1⟩
  | none => .new

theorem newEntry_pprev (t : BlockTree) (miPrev : Option (Fin t.blocks.length)) :
    (newEntry t miPrev).pprev = miPrev.map Fin.val := by
  cases miPrev <;> rfl

theorem pprev_lt_newEntry (t : BlockTree) (miPrev : Option (Fin t.blocks.length)) (p : Nat)
    (h : (newEntry t miPrev).pprev = some p) : p < t.blocks.length := by
  rw [newEntry_pprev] at h
  obtain ⟨q, -, rfl⟩ := Option.map_eq_some_iff.mp h
  exact q.isLt

/-- `BlockManager::AddToBlockIndex` for a header the index does not hold yet. -/
def AddToBlockIndex (t : BlockTree) (miPrev : Option (Fin t.blocks.length)) : BlockTree :=
  t.push (newEntry t miPrev) (pprev_lt_newEntry t miPrev)

/-- The block indexes `AddToBlockIndex` builds from an empty one. -/
inductive Built : BlockTree → Prop
  | empty : Built BlockTree.empty
  | add {t : BlockTree} (miPrev : Option (Fin t.blocks.length)) : Built t → Built (AddToBlockIndex t miPrev)

/-- The loop of `LastCommonAncestor`: both pointers one step back until they
are equal or one is null. -/
def lastCommonLoop (t : BlockTree) : Option Nat → Option Nat → Option Nat × Option Nat
  | none, pb => (none, pb)
  | some a, none => (some a, none)
  | some a, some b =>
    if a = b then (some a, some b) else lastCommonLoop t (t.get a).pprev (t.get b).pprev
termination_by pa => pa.elim 0 (· + 1)
decreasing_by
  cases hp : (t.get a).pprev with
  | none => simp
  | some p => simpa using t.pprev_lt_self hp

/-- `LastCommonAncestor` of two entries: the deeper one first walks up to the
other's height. It returns `pa` after `assert(pa == pb)`. -/
def LastCommonAncestor (t : BlockTree) (pa pb : Nat) : Option Nat :=
  let ha := (t.get pa).nHeight
  let hb := (t.get pb).nHeight
  let pa' := if ha > hb then GetAncestor t pa hb else some pa
  let pb' := if ha > hb then some pb else if hb > ha then GetAncestor t pb ha else some pb
  (lastCommonLoop t pa' pb').1

/-- `CChain`: the entries of a chain by height. -/
structure CChain where
  vChain : List Nat

namespace CChain

def Height (c : CChain) : Int := c.vChain.length - 1

def Tip (c : CChain) : Option Nat := c.vChain.getLast?

def Contains (t : BlockTree) (c : CChain) (pindex : Nat) : Bool :=
  c.vChain[(t.get pindex).nHeight]? == some pindex

/-- The walk of `FindFork` back from `pindex` to the first entry of the chain. -/
def findForkLoop (t : BlockTree) (c : CChain) : Option Nat → Option Nat
  | none => none
  | some p => if c.Contains t p then some p else findForkLoop t c (t.get p).pprev
termination_by pindex => pindex.elim 0 (· + 1)
decreasing_by
  cases hp : (t.get p).pprev with
  | none => simp
  | some q => simpa using t.pprev_lt_self hp

/-- `CChain::FindFork`. -/
def FindFork (t : BlockTree) (c : CChain) : Option Nat → Option Nat
  | none => none
  | some pindex =>
    let pindex' := if (t.get pindex).nHeight > c.Height then GetAncestor t pindex c.Height else some pindex
    findForkLoop t c pindex'

/-- What `SetTip` keeps: the entry at each height has that height, and is the
parent of the one above it. -/
structure IsPath (t : BlockTree) (c : CChain) : Prop where
  height : ∀ h (hh : h < c.vChain.length), (t.get c.vChain[h]).nHeight = h
  link : ∀ h (hh : h + 1 < c.vChain.length), (t.get c.vChain[h + 1]).pprev = some c.vChain[h]

end CChain

end YuPost.Chain
