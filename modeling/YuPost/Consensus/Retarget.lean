import Mathlib.Analysis.Complex.ExponentialBounds
import YuPost.Consensus.Pos
import YuPost.Lib.ExpSeries

/-! Difficulty retargeting of `pow.cpp`: `CalculateNextWorkRequired` and
`mul_exp`, in `arith_uint256` and `int64_t` as the source computes them.
Before QIP9 the previous target is multiplied by a weighted spacing and
divided; after it `mul_exp` evaluates the floored Taylor series of
`a · exp (p / q)` term by term, and refines `YuPost.Lib.ExpSeries` as long as
no product and no partial sum leaves 256 bits. The limits are the values
`UintToArith256` gives for the parameters' `uint256` constants. -/

namespace YuPost.Consensus

open YuPost.Lib YuPost.Primitives

/-- The fields of `Consensus::Params` that retargeting reads. -/
structure RetargetParams where
  QIP9Height : Int
  nReduceBlocktimeHeight : Int
  powLimit : arith_uint256
  posLimit : arith_uint256
  QIP9PosLimit : arith_uint256
  RBTPosLimit : arith_uint256
  nPowTargetTimespan : Int64
  nPowTargetTimespanV2 : Int64
  nRBTPowTargetTimespan : Int64
  nPowTargetSpacing : Int64
  nRBTPowTargetSpacing : Int64
  fPowNoRetargeting : Bool
  fPoSNoRetargeting : Bool
  nStakeTimestampMask : UInt32
  nRBTStakeTimestampMask : UInt32

namespace RetargetParams

def targetSpacing (p : RetargetParams) (height : Int) : Int64 :=
  if height < p.nReduceBlocktimeHeight then p.nPowTargetSpacing else p.nRBTPowTargetSpacing

def targetTimespan (p : RetargetParams) (height : Int) : Int64 :=
  if height < p.QIP9Height then p.nPowTargetTimespan
  else if height < p.nReduceBlocktimeHeight then p.nPowTargetTimespanV2 else p.nRBTPowTargetTimespan

def difficultyAdjustmentInterval (p : RetargetParams) (height : Int) : Int64 :=
  p.targetTimespan height / p.targetSpacing height

def stakeTimestampMask (p : RetargetParams) (height : Int) : UInt32 :=
  if height < p.nReduceBlocktimeHeight then p.nStakeTimestampMask else p.nRBTStakeTimestampMask

end RetargetParams

/-- The main network's retargeting parameters, from `CMainParams`. -/
def mainRetargetParams : RetargetParams where
  QIP9Height := 466600
  nReduceBlocktimeHeight := 845000
  powLimit := BitVec.ofNat 256 (2 ^ 240 - 1)
  posLimit := BitVec.ofNat 256 (2 ^ 224 - 1)
  QIP9PosLimit := BitVec.ofNat 256 (2 ^ 205 - 1)
  RBTPosLimit := BitVec.ofNat 256 (2 ^ 206 - 1)
  nPowTargetTimespan := 16 * 60
  nPowTargetTimespanV2 := 4000
  nRBTPowTargetTimespan := 1000
  nPowTargetSpacing := 2 * 64
  nRBTPowTargetSpacing := 32
  fPowNoRetargeting := true
  fPoSNoRetargeting := false
  nStakeTimestampMask := 15
  nRBTStakeTimestampMask := 3

/-- `GetLimit`. -/
def getLimit (p : RetargetParams) (nHeight : Int) (fProofOfStake : Bool) : arith_uint256 :=
  if fProofOfStake then
    if nHeight < p.QIP9Height then p.posLimit
    else if nHeight < p.nReduceBlocktimeHeight then p.QIP9PosLimit
    else p.RBTPosLimit
  else p.powLimit

/-- The loop of `mul_exp`: `a` is the last term and `n` its index, a `uint64_t`.
The term is multiplied by `abs_p` as a `uint32_t` (the overload
`operator*(const base_uint&, uint32_t)`), then divided by `q` and by `n` as
`base_uint`s. `none` when the fuel runs out. -/
def mulExpLoop (absP : UInt64) (q : Int64) (isNegative : Bool) :
    Nat → arith_uint256 → arith_uint256 → UInt64 → Option (Except String arith_uint256)
  | 0, _, _, _ => none
  | fuel + 1, a, result, n =>
    if a = 0 then some (.ok result)
    else
      let n := n + 1
      match divide (a * BitVec.ofNat 256 absP.toUInt32.toNat) (BitVec.ofNat 256 q.toUInt64.toNat) >>=
          fun t => divide t (BitVec.ofNat 256 n.toNat) with
      | .error e => some (.error e)
      | .ok a =>
        let result := if isNegative && n % 2 = 1 then result - a else result + a
        mulExpLoop absP q isNegative fuel a result n

/-- `mul_exp`: `a · exp (p / q)` for small `|p / q|`. The fuel covers the
`2 ^ 64` passes after which the counter would wrap. -/
def mulExp (a : arith_uint256) (p q : Int64) : Option (Except String arith_uint256) :=
  let isNegative := decide (p < 0)
  let abs_p : UInt64 := if p ≥ 0 then p.toUInt64 else (-p).toUInt64
  mulExpLoop abs_p q isNegative (2 ^ 64 + 1) a a 0

/-- The clamp at the end of `CalculateNextWorkRequired`. -/
def clampTarget (bnTargetLimit bnNew : arith_uint256) : arith_uint256 :=
  if bnNew = 0 ∨ bnNew > bnTargetLimit then bnTargetLimit else bnNew

/-- The two clamps on the spacing in `CalculateNextWorkRequired`: a negative
spacing becomes the target spacing, one above `k` target spacings becomes that. -/
def limitSpacing (nActualSpacing nTargetSpacing k : Int64) : Int64 :=
  let nActualSpacing := if nActualSpacing < 0 then nTargetSpacing else nActualSpacing
  if nActualSpacing > nTargetSpacing * k then nTargetSpacing * k else nActualSpacing

/-- `CalculateNextWorkRequired`, the block's time taken as `GetBlockTime`. The
spacing is multiplied into the target as a `uint32_t`, the overload
`operator*=` picks. -/
def calculateNextWorkRequired (p : RetargetParams) (pindexLast : CBlockIndex) (nFirstBlockTime : Int64)
    (fProofOfStake : Bool) : Option (Except String UInt32) :=
  if fProofOfStake && p.fPoSNoRetargeting || !fProofOfStake && p.fPowNoRetargeting then some (.ok pindexLast.nBits)
  else
    let nHeight := pindexLast.nHeight + 1
    let nTargetSpacing := p.targetSpacing nHeight
    let nActualSpacing := Int64.ofNat pindexLast.nTime.toNat - nFirstBlockTime
    let bnTargetLimit := getLimit p nHeight fProofOfStake
    let bnNew := (setCompact pindexLast.nBits).1
    let nInterval := p.difficultyAdjustmentInterval nHeight
    let bnNew : Option (Except String arith_uint256) :=
      if nHeight < p.QIP9Height then
        let nActualSpacing := limitSpacing nActualSpacing nTargetSpacing 10
        let bnNew := bnNew * BitVec.ofNat 256
          ((nInterval - 1) * nTargetSpacing + nActualSpacing + nActualSpacing).toUInt64.toUInt32.toNat
        some (divide bnNew (BitVec.ofNat 256 ((nInterval + 1) * nTargetSpacing).toUInt64.toNat))
      else
        let nActualSpacing := limitSpacing nActualSpacing nTargetSpacing 20
        let stakeTimestampMask := p.stakeTimestampMask nHeight
        let granularity := Int64.ofNat (stakeTimestampMask + 1).toNat
        mulExp bnNew (2 * (nActualSpacing - nTargetSpacing) / granularity)
          ((nInterval + 1) * nTargetSpacing / granularity)
    bnNew.map fun r => r.map fun bnNew => getCompact (clampTarget bnTargetLimit bnNew) false

/-- The exponent `mul_exp` receives after QIP9, in integers: twice the clamped
spacing's excess over the target spacing, over the granularity `mask + 1`,
truncated toward zero as `int64_t` division is. -/
def mulExpExponent (nActualSpacing nTargetSpacing : Int64) (stakeTimestampMask : UInt32) : Int :=
  (2 * ((limitSpacing nActualSpacing nTargetSpacing 20).toInt - nTargetSpacing.toInt)).tdiv
    (stakeTimestampMask.toNat + 1)

section MulExp

variable (absP : UInt64) (q : Int64) (isNegative : Bool)

/-- A pass either ends the loop or moves the counter on; a counter that wraps
to zero makes the division throw. So from counter `n`, `2 ^ 64 - n` passes
end the loop. -/
theorem mulExpLoop_isSome : ∀ (fuel : Nat) (a result : arith_uint256) (n : UInt64),
    2 ^ 64 - n.toNat < fuel → (mulExpLoop absP q isNegative fuel a result n).isSome := by
  intro fuel
  induction fuel with
  | zero =>
    intro a result n h
    omega
  | succ fuel ih =>
    intro a result n hfuel
    unfold mulExpLoop
    by_cases ha : a = 0
    · rw [if_pos ha]
      rfl
    · rw [if_neg ha]
      dsimp only
      split
      next => rfl
      next a' hdiv =>
        apply ih
        have hne : (n + 1).toNat ≠ 0 := by
          intro h0
          rw [h0] at hdiv
          obtain ⟨t, -, ht⟩ := Iff.mp bind_eq_ok hdiv
          rw [show BitVec.ofNat 256 0 = 0 from rfl, divide_zero] at ht
          cases ht
        have hlt : n.toNat < 2 ^ 64 := n.toBitVec.isLt
        rw [UInt64.toNat_add, UInt64.toNat_one] at hne ⊢
        omega

theorem mulExp_isSome (a : arith_uint256) (p q : Int64) : (mulExp a p q).isSome :=
  mulExpLoop_isSome _ _ _ _ a a 0 (by simp)

end MulExp

section Series

theorem ofNat_ne_zero_of_lt {t : Nat} (ht : t ≠ 0) (hlt : t < 2 ^ 256) : BitVec.ofNat 256 t ≠ 0 := by
  intro h
  have h' := congrArg BitVec.toNat h
  rw [BitVec.toNat_ofNat, Nat.mod_eq_of_lt hlt] at h'
  exact ht h'

theorem divide_ofNat {a b : Nat} (ha : a < 2 ^ 256) (hb : b ≠ 0) (hb' : b < 2 ^ 256) :
    divide (BitVec.ofNat 256 a) (BitVec.ofNat 256 b) = .ok (BitVec.ofNat 256 (a / b)) := by
  rw [divide_eq_ok _ (ofNat_ne_zero_of_lt hb hb')]
  congr 1
  apply BitVec.eq_of_toNat_eq
  rw [BitVec.toNat_udiv, BitVec.toNat_ofNat, BitVec.toNat_ofNat, BitVec.toNat_ofNat, Nat.mod_eq_of_lt ha,
    Nat.mod_eq_of_lt hb', Nat.mod_eq_of_lt (lt_of_le_of_lt (Nat.div_le_self a b) ha)]

theorem ofNat_sub_ofNat {a b : Nat} (hba : b ≤ a) (ha : a < 2 ^ 256) :
    BitVec.ofNat 256 a - BitVec.ofNat 256 b = BitVec.ofNat 256 (a - b) := by
  apply BitVec.eq_of_toNat_eq
  rw [BitVec.toNat_sub, BitVec.toNat_ofNat, BitVec.toNat_ofNat, BitVec.toNat_ofNat, Nat.mod_eq_of_lt ha,
    Nat.mod_eq_of_lt (by omega : b < 2 ^ 256)]
  omega

variable (absP : UInt64) (q : Int64) (isNegative : Bool)

theorem mulExpLoop_zero_term (fuel : Nat) (result : arith_uint256) (n : UInt64) :
    mulExpLoop absP q isNegative (fuel + 1) 0 result n = some (.ok result) := by
  simp only [mulExpLoop, if_true]

/-- One pass on a nonzero term: the term times `abs_p` as a `uint32_t`, over
`q` and over the new counter, is taken off the result or added to it. Neither
division throws while `q` is nonzero and the counter does not wrap. -/
theorem mulExpLoop_succ (fuel : Nat) {a : arith_uint256} (result : arith_uint256) {n : UInt64} (ha : a ≠ 0)
    (hQ : q.toUInt64.toNat ≠ 0) (hn : n.toNat + 1 < 2 ^ 64) :
    mulExpLoop absP q isNegative (fuel + 1) a result n =
      let a' := a * BitVec.ofNat 256 absP.toUInt32.toNat / BitVec.ofNat 256 q.toUInt64.toNat /
        BitVec.ofNat 256 (n.toNat + 1)
      mulExpLoop absP q isNegative fuel a' (if isNegative && (n + 1) % 2 = 1 then result - a' else result + a')
        (n + 1) := by
  have hn1 : (n + 1).toNat = n.toNat + 1 := by
    rw [UInt64.toNat_add, UInt64.toNat_one]
    exact Nat.mod_eq_of_lt hn
  have hpass : (divide (a * BitVec.ofNat 256 absP.toUInt32.toNat) (BitVec.ofNat 256 q.toUInt64.toNat) >>=
      fun t => divide t (BitVec.ofNat 256 (n + 1).toNat)) =
      .ok (a * BitVec.ofNat 256 absP.toUInt32.toNat / BitVec.ofNat 256 q.toUInt64.toNat /
        BitVec.ofNat 256 (n.toNat + 1)) := by
    rw [divide_eq_ok _ (ofNat_ne_zero_of_lt hQ (lt_trans q.toUInt64.toNat_lt_size (by decide))), hn1]
    exact divide_eq_ok _ (ofNat_ne_zero_of_lt (by omega) (by omega))
  simp only [mulExpLoop, if_neg ha]
  rw [hpass]

theorem mulExpLoop_succ_of_ne_zero {t X Q : Nat} (hX : absP.toUInt32.toNat = X) (hQ : q.toUInt64.toNat = Q)
    (fuel : Nat) (result : arith_uint256) {n : UInt64} (ht : t ≠ 0) (hlt : t < 2 ^ 256)
    (htX : t * X < 2 ^ 256) (hQ0 : 0 < Q) (hn : n.toNat + 1 < 2 ^ 64) :
    mulExpLoop absP q isNegative (fuel + 1) (BitVec.ofNat 256 t) result n =
      mulExpLoop absP q isNegative fuel (BitVec.ofNat 256 (t * X / Q / (n.toNat + 1)))
        (if isNegative && (n + 1) % 2 = 1 then result - BitVec.ofNat 256 (t * X / Q / (n.toNat + 1))
          else result + BitVec.ofNat 256 (t * X / Q / (n.toNat + 1))) (n + 1) := by
  have hQlt : Q < 2 ^ 256 := hQ ▸ lt_trans q.toUInt64.toNat_lt_size (by decide)
  have hquot : t * X / Q / (n.toNat + 1) < 2 ^ 256 :=
    lt_of_le_of_lt ((Nat.div_le_self _ _).trans (Nat.div_le_self _ _)) htX
  -- the three operations on numbers below `2 ^ 256` are the operations on `Nat`
  have hterm : BitVec.ofNat 256 t * BitVec.ofNat 256 X / BitVec.ofNat 256 Q / BitVec.ofNat 256 (n.toNat + 1) =
      BitVec.ofNat 256 (t * X / Q / (n.toNat + 1)) := by
    rw [← BitVec.ofNat_mul]
    apply BitVec.eq_of_toNat_eq
    simp only [BitVec.toNat_udiv, BitVec.toNat_ofNat, Nat.mod_eq_of_lt htX, Nat.mod_eq_of_lt hQlt,
      Nat.mod_eq_of_lt (by omega : n.toNat + 1 < 2 ^ 256), Nat.mod_eq_of_lt hquot]
  rw [mulExpLoop_succ absP q isNegative fuel result (ofNat_ne_zero_of_lt ht hlt) (by omega) hn, hX, hQ, hterm]

/-- The running sum as the loop keeps it: the new term taken off on the odd
counters of a negative exponent and added otherwise. That is the signed sum as
long as both sums lie in `[0, 2 ^ 256)`. -/
theorem ofNat_expSum_succ {A X Q k : Nat} {n : UInt64} (hn : n.toNat = k)
    (hS : 0 ≤ expSum isNegative A X Q k ∧ expSum isNegative A X Q k < 2 ^ 256)
    (hS' : 0 ≤ expSum isNegative A X Q (k + 1) ∧ expSum isNegative A X Q (k + 1) < 2 ^ 256) :
    (if isNegative && (n + 1) % 2 = 1 then
        BitVec.ofNat 256 (expSum isNegative A X Q k).toNat - BitVec.ofNat 256 (expTerm A X Q (k + 1))
      else BitVec.ofNat 256 (expSum isNegative A X Q k).toNat + BitVec.ofNat 256 (expTerm A X Q (k + 1))) =
      BitVec.ofNat 256 (expSum isNegative A X Q (k + 1)).toNat := by
  have hpar : ((n + 1) % 2 = 1) ↔ (k + 1) % 2 = 1 := by
    rw [← UInt64.toNat_inj, UInt64.toNat_mod, UInt64.toNat_add, hn]
    simp
  rw [expSum_succ, expSign_eq_ite] at hS'
  rw [expSum_succ, expSign_eq_ite]
  by_cases hodd : isNegative = true ∧ (k + 1) % 2 = 1
  · -- an odd term of a negative exponent is taken off, and the sum stays above it
    have hc : (isNegative && (n + 1) % 2 = 1) = true := by simp [hodd.1, hpar, hodd.2]
    rw [if_pos hc, if_pos hodd]
    rw [if_pos hodd] at hS'
    rw [ofNat_sub_ofNat (by omega) (by omega)]
    congr 1
    omega
  · have hc : (isNegative && (n + 1) % 2 = 1) = false := by
      rw [Bool.and_eq_false_iff, decide_eq_false_iff_not, hpar]
      by_cases hneg : isNegative = true
      · exact .inr fun h => hodd ⟨hneg, h⟩
      · exact .inl (by simpa using hneg)
    rw [if_neg (by rw [hc]; decide), if_neg hodd, ← BitVec.ofNat_add]
    rw [if_neg hodd] at hS'
    congr 1
    omega

theorem expTerm_lt_of_bounds {A X Q N : Nat} (hprod : ∀ i < N, expTerm A X Q i * X < 2 ^ 256)
    (hsum : ∀ i ≤ N, 0 ≤ expSum isNegative A X Q i ∧ expSum isNegative A X Q i < 2 ^ 256) :
    ∀ i ≤ N, expTerm A X Q i < 2 ^ 256
  | 0, _ => by
    have h0 := (hsum 0 (Nat.zero_le N)).2
    rw [expSum_zero] at h0
    exact_mod_cast h0
  | i + 1, hi => lt_of_le_of_lt (expTerm_succ_le_mul i) (hprod i hi)

/-- The loop refines the floored series: from term `k` with counter `k`, it
returns the partial sum up to a zero term `N`, as long as no product and no
partial sum on the way leaves `[0, 2 ^ 256)`. Induction on the fuel; a pass is
`mulExpLoop_succ_of_ne_zero` and the sum it keeps is `ofNat_expSum_succ`. -/
theorem mulExpLoop_eq_expSum {A X Q N : Nat} (hX : absP.toUInt32.toNat = X) (hQ : q.toUInt64.toNat = Q)
    (hQ0 : 0 < Q) (hN : N < 2 ^ 64) (hzero : expTerm A X Q N = 0)
    (hprod : ∀ i < N, expTerm A X Q i * X < 2 ^ 256)
    (hsum : ∀ i ≤ N, 0 ≤ expSum isNegative A X Q i ∧ expSum isNegative A X Q i < 2 ^ 256) :
    ∀ (fuel k : Nat) (n : UInt64), n.toNat = k → k ≤ N → N - k < fuel →
      mulExpLoop absP q isNegative fuel (BitVec.ofNat 256 (expTerm A X Q k))
        (BitVec.ofNat 256 (expSum isNegative A X Q k).toNat) n =
        some (.ok (BitVec.ofNat 256 (expSum isNegative A X Q N).toNat)) := by
  intro fuel
  induction fuel with
  | zero =>
    intro k n _ _ hfuel
    omega
  | succ fuel ih =>
    intro k n hn hk hfuel
    by_cases ht : expTerm A X Q k = 0
    · -- the loop stops at the first zero term, past which the sums stand still
      rw [ht, show BitVec.ofNat 256 0 = 0 from rfl, mulExpLoop_zero_term,
        expSum_eq_of_expTerm_eq_zero isNegative ht hk]
    · have hkN : k < N := lt_of_le_of_ne hk fun h => ht (h ▸ hzero)
      rw [mulExpLoop_succ_of_ne_zero absP q isNegative hX hQ fuel _ ht
          (expTerm_lt_of_bounds isNegative hprod hsum k hk) (hprod k hkN) hQ0 (by omega),
        hn, ← expTerm_succ,
        ofNat_expSum_succ isNegative hn (hsum k hk) (hsum (k + 1) hkN)]
      have hn1 : (n + 1).toNat = k + 1 := by
        rw [UInt64.toNat_add, UInt64.toNat_one, hn]
        exact Nat.mod_eq_of_lt (by omega)
      exact ih (k + 1) (n + 1) hn1 hkN (by omega)

theorem toNat_pass_mul_le (a : arith_uint256) {X Q k : Nat} (hX : X < 2 ^ 256) (hQ : Q < 2 ^ 256)
    (hk : k + 1 < 2 ^ 256) :
    (a * BitVec.ofNat 256 X / BitVec.ofNat 256 Q / BitVec.ofNat 256 (k + 1)).toNat * (k + 1) ≤ a.toNat * X := by
  simp only [BitVec.toNat_udiv, BitVec.toNat_mul, BitVec.toNat_ofNat, Nat.mod_eq_of_lt hX, Nat.mod_eq_of_lt hQ,
    Nat.mod_eq_of_lt hk]
  calc a.toNat * X % 2 ^ 256 / Q / (k + 1) * (k + 1) ≤ a.toNat * X % 2 ^ 256 / Q := Nat.div_mul_le_self _ _
    _ ≤ a.toNat * X % 2 ^ 256 := Nat.div_le_self _ _
    _ ≤ a.toNat * X := Nat.mod_le _ _

/-- Once the counter is past twice the factor, each pass at least halves the
term, wrapped or not; so a term below `2 ^ j` is gone after `j` passes and the
loop returns. -/
theorem mulExpLoop_ok_of_halving (hQ : q.toUInt64.toNat ≠ 0) :
    ∀ (fuel j : Nat) (a result : arith_uint256) (n : UInt64), 2 * absP.toUInt32.toNat ≤ n.toNat →
      a.toNat < 2 ^ j → j < fuel → n.toNat + j < 2 ^ 64 →
      ∃ r, mulExpLoop absP q isNegative fuel a result n = some (.ok r) := by
  have hX : absP.toUInt32.toNat < 2 ^ 32 := absP.toUInt32.toNat_lt
  have hQlt : q.toUInt64.toNat < 2 ^ 64 := q.toUInt64.toNat_lt
  intro fuel
  induction fuel with
  | zero =>
    intro j a result n _ _ hj _
    omega
  | succ fuel ih =>
    intro j a result n hn ha hj hwrap
    by_cases h0 : a = 0
    · exact ⟨result, h0 ▸ mulExpLoop_zero_term absP q isNegative fuel result n⟩
    · have hj1 : 1 ≤ j := by
        rcases Nat.eq_zero_or_pos j with rfl | hpos
        · exact absurd (BitVec.eq_of_toNat_eq (by simpa using ha)) h0
        · exact hpos
      have hn1 : (n + 1).toNat = n.toNat + 1 := by
        rw [UInt64.toNat_add, UInt64.toNat_one]
        exact Nat.mod_eq_of_lt (by omega)
      rw [mulExpLoop_succ absP q isNegative fuel result h0 hQ (by omega)]
      have hpass := toNat_pass_mul_le a (X := absP.toUInt32.toNat) (Q := q.toUInt64.toNat) (k := n.toNat)
        (by omega) (by omega) (by omega)
      generalize a * BitVec.ofNat 256 absP.toUInt32.toNat / BitVec.ofNat 256 q.toUInt64.toNat /
        BitVec.ofNat 256 (n.toNat + 1) = a' at hpass ⊢
      -- `a' (n + 1) ≤ a X < 2 ^ j X` with `n + 1 > 2 X`, so `a' < 2 ^ (j - 1)`
      have hhalf : a'.toNat < 2 ^ (j - 1) := by
        rcases Nat.eq_zero_or_pos absP.toUInt32.toNat with hX0 | hXpos
        · rw [hX0, Nat.mul_zero] at hpass
          have ha' : a'.toNat = 0 := by
            rcases Nat.mul_eq_zero.mp (Nat.le_zero.mp hpass) with h | h
            · exact h
            · omega
          rw [ha']
          exact Nat.pow_pos (by decide)
        · have hkey : a'.toNat * (2 * absP.toUInt32.toNat) < 2 ^ (j - 1) * (2 * absP.toUInt32.toNat) :=
            calc a'.toNat * (2 * absP.toUInt32.toNat) ≤ a'.toNat * (n.toNat + 1) :=
                  Nat.mul_le_mul_left _ (by omega)
              _ ≤ a.toNat * absP.toUInt32.toNat := hpass
              _ < 2 ^ j * absP.toUInt32.toNat := Nat.mul_lt_mul_of_pos_right ha hXpos
              _ = 2 ^ (j - 1) * (2 * absP.toUInt32.toNat) := by
                rw [← Nat.mul_assoc, ← Nat.pow_succ, Nat.succ_eq_add_one, Nat.sub_add_cancel hj1]
          exact Nat.lt_of_mul_lt_mul_right hkey
      exact ih (j - 1) a' _ (n + 1) (by omega) hhalf (by omega) (by omega)

theorem mulExpLoop_ok (hQ : q.toUInt64.toNat ≠ 0) :
    ∀ (fuel : Nat) (a result : arith_uint256) (n : UInt64), n.toNat ≤ 2 * absP.toUInt32.toNat →
      2 * absP.toUInt32.toNat - n.toNat + 256 < fuel →
      ∃ r, mulExpLoop absP q isNegative fuel a result n = some (.ok r) := by
  have hX : absP.toUInt32.toNat < 2 ^ 32 := absP.toUInt32.toNat_lt
  intro fuel
  induction fuel with
  | zero =>
    intro a result n _ hfuel
    omega
  | succ fuel ih =>
    intro a result n hn hfuel
    by_cases hpast : n.toNat = 2 * absP.toUInt32.toNat
    · exact mulExpLoop_ok_of_halving absP q isNegative hQ (fuel + 1) 256 a result n (by omega) a.isLt
        (by omega) (by omega)
    · by_cases h0 : a = 0
      · exact ⟨result, h0 ▸ mulExpLoop_zero_term absP q isNegative fuel result n⟩
      · have hn1 : (n + 1).toNat = n.toNat + 1 := by
          rw [UInt64.toNat_add, UInt64.toNat_one]
          exact Nat.mod_eq_of_lt (by omega)
        rw [mulExpLoop_succ absP q isNegative fuel result h0 hQ (by omega)]
        exact ih _ _ (n + 1) (by omega) (by omega)

theorem mulExp_ok (a : arith_uint256) (p : Int64) {q : Int64} (hq : q ≠ 0) : ∃ r, mulExp a p q = some (.ok r) := by
  have hQ : q.toUInt64.toNat ≠ 0 := by
    intro h
    apply hq
    apply Int64.toBitVec_inj.mp
    apply BitVec.eq_of_toNat_eq
    rw [← Int64.toBitVec_toUInt64, UInt64.toNat_toBitVec, h]
    rfl
  have hX : (if p ≥ 0 then p.toUInt64 else (-p).toUInt64).toUInt32.toNat < 2 ^ 32 := UInt32.toNat_lt _
  exact mulExpLoop_ok _ q _ hQ (2 ^ 64 + 1) a a 0 (by simp) (by simp; omega)

theorem toNat_absP (p : Int64) : (if p ≥ 0 then p.toUInt64 else (-p).toUInt64).toNat = p.toInt.natAbs := by
  have hint := BitVec.toInt_eq_toNat_cond p.toBitVec
  rw [Int64.toInt_toBitVec] at hint
  have hlt := p.toBitVec.isLt
  split
  next h =>
    rw [ge_iff_le, Int64.le_iff_toInt_le, Int64.toInt_zero] at h
    rw [← UInt64.toNat_toBitVec, Int64.toBitVec_toUInt64]
    split_ifs at hint <;> omega
  next h =>
    rw [ge_iff_le, Int64.le_iff_toInt_le, Int64.toInt_zero] at h
    rw [← UInt64.toNat_toBitVec, Int64.toBitVec_toUInt64, Int64.toBitVec_neg, BitVec.toNat_neg]
    split_ifs at hint <;> omega

theorem toNat_toUInt64_of_nonneg {q : Int64} (hq : 0 ≤ q.toInt) : q.toUInt64.toNat = q.toInt.toNat := by
  have hnat := toNat_toBitVec_of_nonneg hq
  rw [← UInt64.toNat_toBitVec, Int64.toBitVec_toUInt64]
  omega

/-- `mul_exp` returns the floored series of `a · exp (± X / Q)`, where `X` is
`|p|` cut to the 32 bits of its `uint32_t` and `Q` is `q`, summed up to a zero
term `N`, as long as no product and no partial sum leaves `[0, 2 ^ 256)`. -/
theorem mulExp_eq_expSum (a : arith_uint256) (p q : Int64) {X Q N : Nat} (hX : p.toInt.natAbs % 2 ^ 32 = X)
    (hQ : q.toInt = Q) (hQ0 : 0 < Q) (hN : N < 2 ^ 64) (hzero : expTerm a.toNat X Q N = 0)
    (hprod : ∀ i < N, expTerm a.toNat X Q i * X < 2 ^ 256)
    (hsum : ∀ i ≤ N, 0 ≤ expSum (decide (p < 0)) a.toNat X Q i ∧ expSum (decide (p < 0)) a.toNat X Q i < 2 ^ 256) :
    mulExp a p q = some (.ok (BitVec.ofNat 256 (expSum (decide (p < 0)) a.toNat X Q N).toNat)) := by
  have hX' : (if p ≥ 0 then p.toUInt64 else (-p).toUInt64).toUInt32.toNat = X := by
    rw [UInt64.toNat_toUInt32, toNat_absP, hX]
  have hQ' : q.toUInt64.toNat = Q := by
    rw [toNat_toUInt64_of_nonneg (by omega), hQ, Int.toNat_natCast]
  have hrun := mulExpLoop_eq_expSum _ q (decide (p < 0)) hX' hQ' hQ0 hN hzero hprod hsum
    (2 ^ 64 + 1) 0 0 rfl (Nat.zero_le N) (by omega)
  have ha : BitVec.ofNat 256 a.toNat = a := by simp
  rw [expTerm_zero, expSum_zero, Int.toNat_natCast, ha] at hrun
  exact hrun

/-- For `|p| < q` the result lies between `a (1 - |p| / q)` and, for `p ≥ 0`,
`a · exp (p / q)`, and it is at most `a` for `p < 0`, so it never wraps below
zero: it is the signed sum of the floored terms, computed without wrapping, as
long as `a |p|` fits in 256 bits and, for `p ≥ 0`, so does `3 a`. -/
theorem mulExp_between (a : arith_uint256) (p q : Int64) (hq : 0 < q.toInt) (hpq : (p.toInt.natAbs : ℤ) < q.toInt)
    (hprod : a.toNat * p.toInt.natAbs < 2 ^ 256) (hthree : 0 ≤ p.toInt → 3 * a.toNat < 2 ^ 256) :
    ∃ r : arith_uint256, mulExp a p q = some (.ok r) ∧
      (r.toNat : ℤ) = expSum (decide (p < 0)) a.toNat (p.toInt.natAbs % 2 ^ 32) q.toInt.toNat 64 ∧
      (a.toNat : ℝ) * (1 - p.toInt.natAbs / q.toInt) ≤ r.toNat ∧
      (0 ≤ p.toInt → (r.toNat : ℝ) ≤ a.toNat * Real.exp (p.toInt / q.toInt)) ∧
      (p.toInt < 0 → r.toNat ≤ a.toNat) := by
  obtain ⟨Q, hQ⟩ : ∃ Q : Nat, q.toInt = Q := ⟨q.toInt.toNat, by omega⟩
  have hQ0 : 0 < Q := by omega
  have hQnat : q.toInt.toNat = Q := by omega
  have hAlt : a.toNat < 2 ^ 256 := a.isLt
  generalize hX : p.toInt.natAbs % 2 ^ 32 = X
  have hXabs : X ≤ p.toInt.natAbs := hX ▸ Nat.mod_le _ _
  have hXQ : X ≤ Q := by omega
  generalize hA : a.toNat = A at hprod hthree hAlt ⊢
  -- every term is at most `a`, and the 64th is zero since `2 ^ 256 ≤ 64!`
  have hzero : expTerm A X Q 64 = 0 :=
    expTerm_eq_zero_of_lt (c := 1) hQ0 (by omega) (by
      rw [one_pow, Nat.mul_one]
      exact lt_of_lt_of_le hAlt (by decide))
  have hprod' : ∀ i < 64, expTerm A X Q i * X < 2 ^ 256 := fun i _ =>
    lt_of_le_of_lt (Nat.mul_le_mul (expTerm_le hXQ i) hXabs) hprod
  have hneg : decide (p < 0) = decide (p.toInt < 0) := by
    simp [Int64.lt_iff_toInt_lt]
  -- the sums lie in `[a - ⌊a X / Q⌋, a]` for `p < 0` and in `[a, 3 a]` for `p ≥ 0`
  have hsum : ∀ i ≤ 64, A - (expTerm A X Q 1 : ℤ) ≤ expSum (decide (p < 0)) A X Q i ∧
      expSum (decide (p < 0)) A X Q i < 2 ^ 256 ∧ (p.toInt < 0 → expSum (decide (p < 0)) A X Q i ≤ A) := by
    intro i _
    have h1 : expTerm A X Q 1 ≤ A := expTerm_le hXQ 1
    by_cases hp : p.toInt < 0
    · rw [hneg, decide_eq_true hp]
      obtain ⟨hlo, hhi⟩ := expSum_true_bounds (a := A) hXQ i
      exact ⟨hlo, by omega, fun _ => hhi⟩
    · rw [hneg, decide_eq_false hp]
      have hlo := le_expSum_false (a := A) (x := X) (q := Q) i
      have hhi := expSum_false_le_mul (a := A) (x := X) hQ0 (c := 1) (M := 3) (by omega)
        (by exact_mod_cast Real.exp_one_lt_three.le) i
      have h3 := hthree (by omega)
      exact ⟨by omega, by omega, fun h => absurd h hp⟩
  have hsum' : ∀ i ≤ 64, 0 ≤ expSum (decide (p < 0)) A X Q i ∧ expSum (decide (p < 0)) A X Q i < 2 ^ 256 :=
    fun i hi => ⟨by have := (hsum i hi).1; have := expTerm_le (a := A) hXQ 1; omega, (hsum i hi).2.1⟩
  have hrun := mulExp_eq_expSum a p q hX hQ hQ0 (by decide) (hA ▸ hzero) (hA ▸ hprod') (hA ▸ hsum')
  rw [hA] at hrun
  obtain ⟨hS0, hSlt⟩ := hsum' 64 le_rfl
  have hr : ((BitVec.ofNat 256 (expSum (decide (p < 0)) A X Q 64).toNat).toNat : ℤ) =
      expSum (decide (p < 0)) A X Q 64 := by
    rw [BitVec.toNat_ofNat, Nat.mod_eq_of_lt (by omega)]
    omega
  have hQR : (q.toInt : ℝ) = Q := by exact_mod_cast hQ
  have hrR : ((BitVec.ofNat 256 (expSum (decide (p < 0)) A X Q 64).toNat).toNat : ℝ) =
      expSum (decide (p < 0)) A X Q 64 := by exact_mod_cast hr
  have hQpos : (0 : ℝ) < Q := by exact_mod_cast hQ0
  have hXabsR : (X : ℝ) / Q ≤ p.toInt.natAbs / Q :=
    div_le_div_of_nonneg_right (by exact_mod_cast hXabs) hQpos.le
  refine ⟨_, hrun, by rw [hr, hQnat], ?_, ?_, fun hp => by have := (hsum 64 le_rfl).2.2 hp; omega⟩
  · -- below: `a (1 - X / Q)`, and `X` is at most `|p|`
    rw [hrR, hQR]
    calc (A : ℝ) * (1 - p.toInt.natAbs / Q) ≤ A * (1 - X / Q) :=
          mul_le_mul_of_nonneg_left (sub_le_sub_left hXabsR 1) (Nat.cast_nonneg A)
      _ ≤ expSum (decide (p < 0)) A X Q 64 := expSum_ge hQ0 hXQ _ 64
  · -- above, for `p ≥ 0`: the floored terms against the real series, at `X ≤ p`
    intro hp
    rw [hrR, hQR, hneg, decide_eq_false (not_lt.mpr hp)]
    have hpX : (X : ℝ) / Q ≤ p.toInt / Q := by
      have habs : ((p.toInt.natAbs : ℕ) : ℝ) = p.toInt := by
        rw [← Int.cast_natCast, Int.natAbs_of_nonneg hp]
      rw [← habs]
      exact hXabsR
    calc (expSum false A X Q 64 : ℝ) ≤ A * Real.exp (X / Q) := expSum_false_le_exp hQ0 64
      _ ≤ A * Real.exp (p.toInt / Q) := mul_le_mul_of_nonneg_left (Real.exp_le_exp.mpr hpX) (Nat.cast_nonneg A)

/-- Rounding the terms down can leave a negative exponent's result above
`a · exp (p / q)`: `mul_exp (3, -1, 2)` is `3 - ⌊3 / 2⌋ = 2`, while
`3 · exp (-1 / 2) < 2`. -/
theorem mulExp_negative_above_exp :
    mulExp 3 (-1) 2 = some (.ok 2) ∧
      (3 : ℝ) * Real.exp ((-1 : Int64).toInt / (2 : Int64).toInt) < (2 : arith_uint256).toNat := by
  constructor
  · rw [mulExp_eq_expSum 3 (-1) 2 (X := 1) (Q := 2) (N := 2) (by decide) (by decide) (by decide) (by decide)
      (by decide) (by decide) (by decide)]
    rfl
  · have hexp : (3 : ℝ) / 2 < Real.exp (1 / 2) := by
      have hlt := Real.add_one_lt_exp (x := 1 / 2) (by norm_num)
      linarith
    rw [show (-1 : Int64).toInt = -1 from rfl, show (2 : Int64).toInt = 2 from rfl,
      show (2 : arith_uint256).toNat = 2 from rfl]
    push_cast
    rw [show ((-1 : ℝ) / 2) = -(1 / 2) by norm_num, Real.exp_neg, ← div_eq_mul_inv,
      div_lt_iff₀ (Real.exp_pos _)]
    linarith

end Series

section Retarget

theorem bmod_of_small {x : Int} (h1 : -2 ^ 63 ≤ x) (h2 : x < 2 ^ 63) : x.bmod (2 ^ 64) = x :=
  Int.bmod_eq_of_le (by omega) (by omega)

theorem toInt_limitSpacing_mem (d T k : Int64) (hT : 0 < T.toInt) (hk : 0 < k.toInt)
    (hTk : T.toInt * k.toInt < 2 ^ 63) :
    0 ≤ (limitSpacing d T k).toInt ∧ (limitSpacing d T k).toInt ≤ T.toInt * k.toInt := by
  have hmul : (T * k).toInt = T.toInt * k.toInt := by
    rw [Int64.toInt_mul]
    exact bmod_of_small (by nlinarith) hTk
  have hpos : 0 < T.toInt * k.toInt := Int.mul_pos hT hk
  generalize T.toInt * k.toInt = P at hmul hpos ⊢
  unfold limitSpacing
  simp only [Int64.lt_iff_toInt_lt, gt_iff_lt, Int64.toInt_zero]
  split_ifs <;> omega

variable {p : RetargetParams} {pindexLast : CBlockIndex} {nFirstBlockTime : Int64} {fProofOfStake : Bool}

/-- Before QIP9 a retargeting step multiplies the previous target by the
weighted spacing, cut to a `uint32_t`, and divides it by the weighted target
spacing. -/
theorem calculateNextWorkRequired_of_lt_QIP9
    (hretarget : (fProofOfStake && p.fPoSNoRetargeting || !fProofOfStake && p.fPowNoRetargeting) = false)
    (hh : pindexLast.nHeight + 1 < p.QIP9Height) :
    calculateNextWorkRequired p pindexLast nFirstBlockTime fProofOfStake =
      (some (divide ((setCompact pindexLast.nBits).1 * BitVec.ofNat 256
          ((p.difficultyAdjustmentInterval (pindexLast.nHeight + 1) - 1) * p.targetSpacing (pindexLast.nHeight + 1) +
            limitSpacing (Int64.ofNat pindexLast.nTime.toNat - nFirstBlockTime) (p.targetSpacing (pindexLast.nHeight + 1)) 10 +
            limitSpacing (Int64.ofNat pindexLast.nTime.toNat - nFirstBlockTime)
              (p.targetSpacing (pindexLast.nHeight + 1)) 10).toUInt64.toUInt32.toNat)
        (BitVec.ofNat 256 ((p.difficultyAdjustmentInterval (pindexLast.nHeight + 1) + 1) *
          p.targetSpacing (pindexLast.nHeight + 1)).toUInt64.toNat))).map
        fun r => r.map fun bnNew => getCompact (clampTarget (getLimit p (pindexLast.nHeight + 1) fProofOfStake) bnNew) false := by
  unfold calculateNextWorkRequired
  simp only [hretarget, Bool.false_eq_true, if_false, if_pos hh]

theorem calculateNextWorkRequired_of_QIP9
    (hretarget : (fProofOfStake && p.fPoSNoRetargeting || !fProofOfStake && p.fPowNoRetargeting) = false)
    (hh : p.QIP9Height ≤ pindexLast.nHeight + 1) :
    calculateNextWorkRequired p pindexLast nFirstBlockTime fProofOfStake =
      (mulExp (setCompact pindexLast.nBits).1
        (2 * (limitSpacing (Int64.ofNat pindexLast.nTime.toNat - nFirstBlockTime) (p.targetSpacing (pindexLast.nHeight + 1)) 20 -
            p.targetSpacing (pindexLast.nHeight + 1)) /
          Int64.ofNat (p.stakeTimestampMask (pindexLast.nHeight + 1) + 1).toNat)
        ((p.difficultyAdjustmentInterval (pindexLast.nHeight + 1) + 1) * p.targetSpacing (pindexLast.nHeight + 1) /
          Int64.ofNat (p.stakeTimestampMask (pindexLast.nHeight + 1) + 1).toNat)).map
        fun r => r.map fun bnNew => getCompact (clampTarget (getLimit p (pindexLast.nHeight + 1) fProofOfStake) bnNew) false := by
  unfold calculateNextWorkRequired
  simp only [hretarget, Bool.false_eq_true, if_false, if_neg (not_lt.mpr hh)]

/-! The main network's values: before QIP9 a spacing of `128` over seven blocks;
after it the spacings `128` and `32` of the two eras over `31` blocks, with the
masks `15` and `3`, and the divisor `q = 256` in both. -/

theorem main_params_of_lt_QIP9 {nHeight : Int} (h : nHeight < mainRetargetParams.QIP9Height) :
    mainRetargetParams.targetSpacing nHeight = 128 ∧ mainRetargetParams.difficultyAdjustmentInterval nHeight = 7 ∧
      getLimit mainRetargetParams nHeight true = BitVec.ofNat 256 (2 ^ 224 - 1) := by
  have hr : nHeight < mainRetargetParams.nReduceBlocktimeHeight := lt_trans h (by decide)
  unfold RetargetParams.difficultyAdjustmentInterval RetargetParams.targetTimespan RetargetParams.targetSpacing getLimit
  simp only [if_pos h, if_pos hr, if_true]
  exact ⟨rfl, by decide, rfl⟩

theorem main_params_of_QIP9 {nHeight : Int} (h : mainRetargetParams.QIP9Height ≤ nHeight) :
    ((mainRetargetParams.targetSpacing nHeight = 128 ∧ mainRetargetParams.stakeTimestampMask nHeight = 15) ∨
      (mainRetargetParams.targetSpacing nHeight = 32 ∧ mainRetargetParams.stakeTimestampMask nHeight = 3)) ∧
    mainRetargetParams.difficultyAdjustmentInterval nHeight = 31 ∧
      (getLimit mainRetargetParams nHeight true).toNat < 2 ^ 206 := by
  have hq : ¬ nHeight < mainRetargetParams.QIP9Height := not_lt.mpr h
  unfold RetargetParams.difficultyAdjustmentInterval RetargetParams.targetTimespan RetargetParams.targetSpacing
    RetargetParams.stakeTimestampMask getLimit
  simp only [if_neg hq, if_true]
  by_cases hr : nHeight < mainRetargetParams.nReduceBlocktimeHeight
  · simp only [if_pos hr]
    exact ⟨.inl ⟨rfl, rfl⟩, by decide, by decide⟩
  · simp only [if_neg hr]
    exact ⟨.inr ⟨rfl, rfl⟩, by decide, by decide⟩

/-- Twice the clamped spacing's excess over the target spacing, divided by the
granularity and truncated toward zero as `int64_t` division is: in
`[-16, 304]` in both eras. -/
theorem tdiv_exponent_bounds {g s : Int} (hg : g = 4 ∨ g = 16) (h0 : 0 ≤ s) (h1 : s ≤ 8 * g * 20) :
    -16 ≤ (2 * (s - 8 * g)).tdiv g ∧ (2 * (s - 8 * g)).tdiv g ≤ 304 := by
  rcases hg with rfl | rfl <;>
  · rw [Int.tdiv_eq_ediv, Int.sign_eq_one_of_pos (by decide)]
    split_ifs <;> omega

theorem toInt_exponent (d : Int64) {T g : Int64} (hTg : (T = 128 ∧ g = 16) ∨ (T = 32 ∧ g = 4)) :
    (2 * (limitSpacing d T 20 - T) / g).toInt = (2 * ((limitSpacing d T 20).toInt - T.toInt)).tdiv g.toInt ∧
      -16 ≤ (2 * ((limitSpacing d T 20).toInt - T.toInt)).tdiv g.toInt ∧
      (2 * ((limitSpacing d T 20).toInt - T.toInt)).tdiv g.toInt ≤ 304 := by
  have hTg' : T.toInt = 8 * g.toInt ∧ (g.toInt = 4 ∨ g.toInt = 16) := by
    rcases hTg with ⟨rfl, rfl⟩ | ⟨rfl, rfl⟩ <;> decide
  obtain ⟨hT8, hg⟩ := hTg'
  have h20 : (20 : Int64).toInt = 20 := rfl
  obtain ⟨hs0, hs1⟩ := toInt_limitSpacing_mem d T 20 (by omega) (by omega) (by rw [h20]; omega)
  generalize limitSpacing d T 20 = s at hs0 hs1 ⊢
  rw [h20, hT8] at hs1
  rw [hT8]
  obtain ⟨hlo, hhi⟩ := tdiv_exponent_bounds hg hs0 hs1
  refine ⟨?_, hlo, hhi⟩
  -- no step of `2 * (s - T) / g` leaves `int64_t`
  rw [Int64.toInt_div, Int64.toInt_mul, Int64.toInt_sub, hT8, show (2 : Int64).toInt = 2 from rfl,
    bmod_of_small (x := s.toInt - 8 * g.toInt) (by omega) (by omega),
    bmod_of_small (x := 2 * (s.toInt - 8 * g.toInt)) (by omega) (by omega),
    bmod_of_small (by omega) (by omega)]

/-- At the main network's exponents, `p ∈ [-16, 304]` over `q = 256`, and a
target below `2 ^ 206`, no term times `|p|` and no partial sum leaves
`[0, 2 ^ 256)`: the sums stay below `9 a`, as `exp 2 < 9`, and the 64th term is
zero since `2 ^ 206 · 2 ^ 64 < 64!`. So `mul_exp` returns the floored series. -/
theorem mulExp_of_small_exponent (a : arith_uint256) (p q : Int64) (hq : q.toInt = 256)
    (hp : -16 ≤ p.toInt ∧ p.toInt ≤ 304) (ha : a.toNat < 2 ^ 206) :
    (∀ i, expTerm a.toNat p.toInt.natAbs 256 i * p.toInt.natAbs < 2 ^ 256 ∧
      0 ≤ expSum (decide (p.toInt < 0)) a.toNat p.toInt.natAbs 256 i ∧
      expSum (decide (p.toInt < 0)) a.toNat p.toInt.natAbs 256 i < 2 ^ 256) ∧
    mulExp a p q = some (.ok (BitVec.ofNat 256 (expSum (decide (p.toInt < 0)) a.toNat p.toInt.natAbs 256 64).toNat)) := by
  have hneg : decide (p < 0) = decide (p.toInt < 0) := by
    simp [Int64.lt_iff_toInt_lt]
  have hX : p.toInt.natAbs % 2 ^ 32 = p.toInt.natAbs := Nat.mod_eq_of_lt (by omega)
  have hexp2 : Real.exp ((2 : ℕ) : ℝ) ≤ ((9 : ℕ) : ℝ) := by
    rw [show ((2 : ℕ) : ℝ) = 1 + 1 by norm_num, Real.exp_add, show ((9 : ℕ) : ℝ) = 9 by norm_num]
    nlinarith [Real.exp_pos 1, Real.exp_one_lt_three]
  have hbounds := fun i => expSum_bounds (a := a.toNat) (x := p.toInt.natAbs) (q := 256) (by decide) (c := 2)
    (by omega) hexp2 (decide (p.toInt < 0)) (fun h => by simp only [decide_eq_true_eq] at h; omega) i
  have hsum : ∀ i, expTerm a.toNat p.toInt.natAbs 256 i * p.toInt.natAbs < 2 ^ 256 ∧
      0 ≤ expSum (decide (p.toInt < 0)) a.toNat p.toInt.natAbs 256 i ∧
      expSum (decide (p.toInt < 0)) a.toNat p.toInt.natAbs 256 i < 2 ^ 256 := by
    intro i
    obtain ⟨h0, hhi, ht⟩ := hbounds i
    have hprod : expTerm a.toNat p.toInt.natAbs 256 i * p.toInt.natAbs ≤ a.toNat * 9 * 304 :=
      Nat.mul_le_mul ht (by omega)
    have h9 : ((a.toNat * 9 : ℕ) : ℤ) < 2 ^ 256 := by push_cast; omega
    exact ⟨by omega, h0, by push_cast at hhi; omega⟩
  have hzero : expTerm a.toNat p.toInt.natAbs 256 64 = 0 :=
    expTerm_eq_zero_of_lt (c := 2) (by decide) (by omega)
      (lt_of_lt_of_le (Nat.mul_lt_mul_of_pos_right ha (by decide)) (by decide))
  refine ⟨hsum, ?_⟩
  rw [mulExp_eq_expSum a p q hX (by rw [hq]; rfl) (by decide) (by decide) hzero (fun i _ => (hsum i).1)
    (fun i _ => by rw [hneg]; exact (hsum i).2), hneg]

theorem mulExp_main_era {T : Int64} {m : UInt32} (hTm : (T = 128 ∧ m = 15) ∨ (T = 32 ∧ m = 3))
    (a : arith_uint256) (ha : a.toNat < 2 ^ 206) (d : Int64) :
    (∀ i, expTerm a.toNat (mulExpExponent d T m).natAbs 256 i * (mulExpExponent d T m).natAbs < 2 ^ 256 ∧
      0 ≤ expSum (decide (mulExpExponent d T m < 0)) a.toNat (mulExpExponent d T m).natAbs 256 i ∧
      expSum (decide (mulExpExponent d T m < 0)) a.toNat (mulExpExponent d T m).natAbs 256 i < 2 ^ 256) ∧
    mulExp a (2 * (limitSpacing d T 20 - T) / Int64.ofNat (m + 1).toNat) ((31 + 1) * T / Int64.ofNat (m + 1).toNat) =
      some (.ok (BitVec.ofNat 256
        (expSum (decide (mulExpExponent d T m < 0)) a.toNat (mulExpExponent d T m).natAbs 256 64).toNat)) := by
  have hg : (T = 128 ∧ Int64.ofNat (m + 1).toNat = 16) ∨ (T = 32 ∧ Int64.ofNat (m + 1).toNat = 4) := by
    rcases hTm with ⟨rfl, rfl⟩ | ⟨rfl, rfl⟩
    · exact .inl ⟨rfl, by decide⟩
    · exact .inr ⟨rfl, by decide⟩
  have hgInt : (Int64.ofNat (m + 1).toNat).toInt = (m.toNat + 1 : Int) := by
    rcases hTm with ⟨rfl, rfl⟩ | ⟨rfl, rfl⟩ <;> decide
  have hq : ((31 + 1) * T / Int64.ofNat (m + 1).toNat).toInt = 256 := by
    rcases hTm with ⟨rfl, rfl⟩ | ⟨rfl, rfl⟩ <;> decide
  obtain ⟨hexp, hlo, hhi⟩ := toInt_exponent d hg
  rw [hgInt] at hexp hlo hhi
  have hrun := mulExp_of_small_exponent a _ _ hq (by rw [hexp]; exact ⟨hlo, hhi⟩) ha
  rw [hexp] at hrun
  exact hrun

theorem mul_ofNat_of_lt (a : arith_uint256) {m : Nat} (h : a.toNat * m < 2 ^ 256) :
    a * BitVec.ofNat 256 m = BitVec.ofNat 256 (a.toNat * m) := by
  apply BitVec.eq_of_toNat_eq
  rw [BitVec.toNat_mul, BitVec.toNat_ofNat, BitVec.toNat_ofNat, Nat.mul_mod_mod, Nat.mod_eq_of_lt h]

variable (pindexLast nFirstBlockTime)

/-- Before QIP9, on the main network, a proof-of-stake retarget is exact: the
previous target, at most `2 ^ 224 - 1`, times `(7 - 1) · 128 + 2 s ≤ 3328` for
the clamped spacing `s` stays below `2 ^ 256`, and the result is that product
over `(7 + 1) · 128`, clamped and compacted. -/
theorem main_retarget_of_lt_QIP9 (hh : pindexLast.nHeight + 1 < mainRetargetParams.QIP9Height)
    (ha : (setCompact pindexLast.nBits).1.toNat ≤ (getLimit mainRetargetParams (pindexLast.nHeight + 1) true).toNat) :
    (setCompact pindexLast.nBits).1.toNat *
        (768 + 2 * (limitSpacing (Int64.ofNat pindexLast.nTime.toNat - nFirstBlockTime) 128 10).toInt).toNat < 2 ^ 256 ∧
    calculateNextWorkRequired mainRetargetParams pindexLast nFirstBlockTime true =
      some (.ok (getCompact (clampTarget (getLimit mainRetargetParams (pindexLast.nHeight + 1) true)
        (BitVec.ofNat 256 ((setCompact pindexLast.nBits).1.toNat *
          (768 + 2 * (limitSpacing (Int64.ofNat pindexLast.nTime.toNat - nFirstBlockTime) 128 10).toInt).toNat / 1024)))
        false)) := by
  obtain ⟨hT, hI, hlim⟩ := main_params_of_lt_QIP9 hh
  rw [calculateNextWorkRequired_of_lt_QIP9 rfl hh, hT, hI]
  rw [hlim, show (BitVec.ofNat 256 (2 ^ 224 - 1)).toNat = 2 ^ 224 - 1 from rfl] at ha
  obtain ⟨hs0, hs1⟩ := toInt_limitSpacing_mem (Int64.ofNat pindexLast.nTime.toNat - nFirstBlockTime) 128 10
    (by decide) (by decide) (by decide)
  generalize limitSpacing (Int64.ofNat pindexLast.nTime.toNat - nFirstBlockTime) 128 10 = s at hs0 hs1 ⊢
  rw [show (128 : Int64).toInt * (10 : Int64).toInt = 1280 from rfl] at hs1
  -- the weighted spacing `768 + 2 s` is a small `int64_t`, kept whole by the `uint32_t`
  have hweighted : ((7 - 1) * 128 + s + s).toInt = 768 + 2 * s.toInt := by
    rw [Int64.toInt_add, Int64.toInt_add, show ((7 - 1) * 128 : Int64).toInt = 768 from rfl,
      bmod_of_small (x := 768 + s.toInt) (by omega) (by omega), bmod_of_small (by omega) (by omega)]
    omega
  have hmult : ((7 - 1) * 128 + s + s).toUInt64.toUInt32.toNat = (768 + 2 * s.toInt).toNat := by
    rw [UInt64.toNat_toUInt32, toNat_toUInt64_of_nonneg (by omega), hweighted]
    exact Nat.mod_eq_of_lt (by omega)
  rw [hmult, show ((7 + 1) * 128 : Int64).toUInt64.toNat = 1024 from rfl]
  have hprod : (setCompact pindexLast.nBits).1.toNat * (768 + 2 * s.toInt).toNat < 2 ^ 256 :=
    calc (setCompact pindexLast.nBits).1.toNat * (768 + 2 * s.toInt).toNat ≤ (2 ^ 224 - 1) * 3328 :=
          Nat.mul_le_mul ha (by omega)
      _ < 2 ^ 256 := by decide
  refine ⟨hprod, ?_⟩
  rw [mul_ofNat_of_lt _ hprod, divide_ofNat hprod (by decide) (by decide)]
  rfl

/-- From QIP9 on, on the main network, a proof-of-stake retarget is exact: no
term of `mul_exp` times `|p|` and no partial sum leaves `[0, 2 ^ 256)`, and the
result is the floored series at `p = mulExpExponent` over `q = 256`, clamped
and compacted. -/
theorem main_retarget_of_QIP9 (hh : mainRetargetParams.QIP9Height ≤ pindexLast.nHeight + 1)
    (ha : (setCompact pindexLast.nBits).1.toNat ≤ (getLimit mainRetargetParams (pindexLast.nHeight + 1) true).toNat) :
    let a := (setCompact pindexLast.nBits).1.toNat
    let P := mulExpExponent (Int64.ofNat pindexLast.nTime.toNat - nFirstBlockTime)
      (mainRetargetParams.targetSpacing (pindexLast.nHeight + 1))
      (mainRetargetParams.stakeTimestampMask (pindexLast.nHeight + 1))
    (∀ i, expTerm a P.natAbs 256 i * P.natAbs < 2 ^ 256 ∧
        0 ≤ expSum (decide (P < 0)) a P.natAbs 256 i ∧ expSum (decide (P < 0)) a P.natAbs 256 i < 2 ^ 256) ∧
      calculateNextWorkRequired mainRetargetParams pindexLast nFirstBlockTime true =
        some (.ok (getCompact (clampTarget (getLimit mainRetargetParams (pindexLast.nHeight + 1) true)
          (BitVec.ofNat 256 (expSum (decide (P < 0)) a P.natAbs 256 64).toNat)) false)) := by
  dsimp only
  obtain ⟨hera, hI, hlim⟩ := main_params_of_QIP9 hh
  rw [calculateNextWorkRequired_of_QIP9 rfl hh, hI]
  have ha' := lt_of_le_of_lt ha hlim
  generalize getLimit mainRetargetParams (pindexLast.nHeight + 1) true = limit
  generalize (setCompact pindexLast.nBits).1 = a at ha' ⊢
  generalize Int64.ofNat pindexLast.nTime.toNat - nFirstBlockTime = d
  generalize mainRetargetParams.targetSpacing (pindexLast.nHeight + 1) = T at hera ⊢
  generalize mainRetargetParams.stakeTimestampMask (pindexLast.nHeight + 1) = m at hera ⊢
  obtain ⟨hbounds, hrun⟩ := mulExp_main_era hera a ha' d
  refine ⟨hbounds, ?_⟩
  rw [hrun]
  rfl

theorem clampTarget_mem {bnTargetLimit : arith_uint256} (hlim : bnTargetLimit ≠ 0) (bnNew : arith_uint256) :
    clampTarget bnTargetLimit bnNew ≠ 0 ∧ (clampTarget bnTargetLimit bnNew).toNat ≤ bnTargetLimit.toNat := by
  unfold clampTarget
  split_ifs with h
  · exact ⟨hlim, le_rfl⟩
  · rw [not_or, gt_iff_lt, BitVec.lt_def, Nat.not_lt] at h
    exact h

theorem setCompact_getCompact_mem {a : arith_uint256} (ha : a ≠ 0) :
    0 < (setCompact (getCompact a false)).1.toNat ∧ (setCompact (getCompact a false)).1.toNat ≤ a.toNat := by
  obtain ⟨e, heq, hpos⟩ := setCompact_getCompact ha
  rw [heq]
  exact ⟨Nat.mul_pos hpos (Nat.pow_pos (by decide)), Nat.div_mul_le_self _ _⟩

theorem getLimit_main_ne_zero (nHeight : Int) (fProofOfStake : Bool) :
    getLimit mainRetargetParams nHeight fProofOfStake ≠ 0 := by
  unfold getLimit
  split_ifs <;> decide

/-- On the main network every previous target in `(0, limit]` gives a next
compact target whose expansion is in `(0, limit]`: proof of work does not
retarget, and proof of stake ends in the clamp. -/
theorem main_retarget_mem (fProofOfStake : Bool) (h0 : 0 < (setCompact pindexLast.nBits).1.toNat)
    (ha : (setCompact pindexLast.nBits).1.toNat ≤
      (getLimit mainRetargetParams (pindexLast.nHeight + 1) fProofOfStake).toNat) :
    ∃ c, calculateNextWorkRequired mainRetargetParams pindexLast nFirstBlockTime fProofOfStake = some (.ok c) ∧
      0 < (setCompact c).1.toNat ∧
      (setCompact c).1.toNat ≤ (getLimit mainRetargetParams (pindexLast.nHeight + 1) fProofOfStake).toNat := by
  cases fProofOfStake with
  | false => exact ⟨pindexLast.nBits, rfl, h0, ha⟩
  | true =>
    -- both branches end in the clamp of some value
    obtain ⟨v, hv⟩ : ∃ v, calculateNextWorkRequired mainRetargetParams pindexLast nFirstBlockTime true =
        some (.ok (getCompact (clampTarget (getLimit mainRetargetParams (pindexLast.nHeight + 1) true) v) false)) := by
      by_cases hh : pindexLast.nHeight + 1 < mainRetargetParams.QIP9Height
      · exact ⟨_, (main_retarget_of_lt_QIP9 pindexLast nFirstBlockTime hh ha).2⟩
      · exact ⟨_, (main_retarget_of_QIP9 pindexLast nFirstBlockTime (not_lt.mp hh) ha).2⟩
    obtain ⟨hc0, hcle⟩ := clampTarget_mem (getLimit_main_ne_zero _ true) v
    obtain ⟨hpos, hle⟩ := setCompact_getCompact_mem hc0
    exact ⟨_, hv, hpos, hle.trans hcle⟩

/-- On the main network retargeting stays in range and, in proof of stake, is
exact in both eras with no product or partial sum leaving 256 bits; `mul_exp`
ends on every input and returns for every nonzero `q`; and for `|p| < q` its
result lies between `a (1 - |p| / q)` and, for `p ≥ 0`, `a · exp (p / q)`, and
is at most `a` for `p < 0`, as long as `a |p|` and, for `p ≥ 0`, `3 a` fit. -/
theorem retarget_in_range_without_overflow :
    (∀ (pindexLast : CBlockIndex) (nFirstBlockTime : Int64) (fProofOfStake : Bool),
      0 < (setCompact pindexLast.nBits).1.toNat →
      (setCompact pindexLast.nBits).1.toNat ≤
        (getLimit mainRetargetParams (pindexLast.nHeight + 1) fProofOfStake).toNat →
      ∃ c, calculateNextWorkRequired mainRetargetParams pindexLast nFirstBlockTime fProofOfStake = some (.ok c) ∧
        0 < (setCompact c).1.toNat ∧
        (setCompact c).1.toNat ≤ (getLimit mainRetargetParams (pindexLast.nHeight + 1) fProofOfStake).toNat) ∧
    (∀ (pindexLast : CBlockIndex) (nFirstBlockTime : Int64),
      pindexLast.nHeight + 1 < mainRetargetParams.QIP9Height →
      (setCompact pindexLast.nBits).1.toNat ≤ (getLimit mainRetargetParams (pindexLast.nHeight + 1) true).toNat →
      let a := (setCompact pindexLast.nBits).1.toNat
      let s := (limitSpacing (Int64.ofNat pindexLast.nTime.toNat - nFirstBlockTime) 128 10).toInt
      a * (768 + 2 * s).toNat < 2 ^ 256 ∧
        calculateNextWorkRequired mainRetargetParams pindexLast nFirstBlockTime true =
          some (.ok (getCompact (clampTarget (getLimit mainRetargetParams (pindexLast.nHeight + 1) true)
            (BitVec.ofNat 256 (a * (768 + 2 * s).toNat / 1024))) false))) ∧
    (∀ (pindexLast : CBlockIndex) (nFirstBlockTime : Int64),
      mainRetargetParams.QIP9Height ≤ pindexLast.nHeight + 1 →
      (setCompact pindexLast.nBits).1.toNat ≤ (getLimit mainRetargetParams (pindexLast.nHeight + 1) true).toNat →
      let a := (setCompact pindexLast.nBits).1.toNat
      let P := mulExpExponent (Int64.ofNat pindexLast.nTime.toNat - nFirstBlockTime)
        (mainRetargetParams.targetSpacing (pindexLast.nHeight + 1))
        (mainRetargetParams.stakeTimestampMask (pindexLast.nHeight + 1))
      (∀ i, expTerm a P.natAbs 256 i * P.natAbs < 2 ^ 256 ∧
          0 ≤ expSum (decide (P < 0)) a P.natAbs 256 i ∧ expSum (decide (P < 0)) a P.natAbs 256 i < 2 ^ 256) ∧
        calculateNextWorkRequired mainRetargetParams pindexLast nFirstBlockTime true =
          some (.ok (getCompact (clampTarget (getLimit mainRetargetParams (pindexLast.nHeight + 1) true)
            (BitVec.ofNat 256 (expSum (decide (P < 0)) a P.natAbs 256 64).toNat)) false))) ∧
    (∀ (a : arith_uint256) (p q : Int64),
      (mulExp a p q).isSome ∧ (q ≠ 0 → ∃ r, mulExp a p q = some (.ok r))) ∧
    (∀ (a : arith_uint256) (p q : Int64), 0 < q.toInt → (p.toInt.natAbs : ℤ) < q.toInt →
      a.toNat * p.toInt.natAbs < 2 ^ 256 → (0 ≤ p.toInt → 3 * a.toNat < 2 ^ 256) →
      ∃ r : arith_uint256, mulExp a p q = some (.ok r) ∧
        (r.toNat : ℤ) = expSum (decide (p < 0)) a.toNat (p.toInt.natAbs % 2 ^ 32) q.toInt.toNat 64 ∧
        (a.toNat : ℝ) * (1 - p.toInt.natAbs / q.toInt) ≤ r.toNat ∧
        (0 ≤ p.toInt → (r.toNat : ℝ) ≤ a.toNat * Real.exp (p.toInt / q.toInt)) ∧
        (p.toInt < 0 → r.toNat ≤ a.toNat)) :=
  ⟨fun pindexLast nFirstBlockTime fProofOfStake h0 ha =>
      main_retarget_mem pindexLast nFirstBlockTime fProofOfStake h0 ha,
    fun pindexLast nFirstBlockTime hh ha => main_retarget_of_lt_QIP9 pindexLast nFirstBlockTime hh ha,
    fun pindexLast nFirstBlockTime hh ha => main_retarget_of_QIP9 pindexLast nFirstBlockTime hh ha,
    fun a p _ => ⟨mulExp_isSome a p _, mulExp_ok a p⟩,
    mulExp_between⟩

/-- A staking block past the block-time fork, six minutes after the first one,
at a target of `0xffff · 2 ^ 184`. -/
theorem retarget_in_range_without_overflow_after_fork :
    0 < (setCompact 0x1a00ffff).1.toNat ∧ (setCompact 0x1a00ffff).1.toNat ≤ (getLimit mainRetargetParams 900000 true).toNat ∧
    ∃ c, calculateNextWorkRequired mainRetargetParams ⟨899999, 1600000360, 0x1a00ffff, ⟨List.replicate 32 7, rfl⟩⟩
        1600000000 true = some (.ok c) ∧
      0 < (setCompact c).1.toNat ∧ (setCompact c).1.toNat ≤ (getLimit mainRetargetParams 900000 true).toNat :=
  ⟨by decide, by decide, retarget_in_range_without_overflow.1 _ _ true (by decide) (by decide)⟩

end Retarget

end YuPost.Consensus
