import YuPost.Lib.LongDivision
import YuPost.Primitives.Transaction

/-! `arith_uint256` of `arith_uint256.cpp`: unsigned 256-bit integers. The
eight 32-bit limbs are one `BitVec 256`; the limb loops of the shifts, of the
comparison and of `operator*=` compute the word operations `<<<`, `>>>`, `≤`
and `*` (the product truncated to 256 bits). The division is kept as the
source writes it, shift and subtract, and refines the long division of
`YuPost.Lib.LongDivision`. -/

namespace YuPost.Primitives

open YuPost.Lib

abbrev arith_uint256 := BitVec 256

/-- The scan of `base_uint::bits` from bit `i - 1` down: one more than the
position of the highest set bit below `i`, or zero. -/
def bitsBelow (a : arith_uint256) : Nat → Nat
  | 0 => 0
  | i + 1 => if a.getLsbD i then i + 1 else bitsBelow a i

/-- `base_uint::bits`: the number of bits up to the highest set one. -/
def bits (a : arith_uint256) : Nat := bitsBelow a 256

/-- One pass of the loop of `operator/=` at bit `shift`: where the aligned
divisor fits it is subtracted, and the quotient's bit `shift` is set
(`pn[shift / 32] |= (1 << (shift & 31))`). Remainder first. -/
def divideStep (shift : Nat) (num div q : arith_uint256) : arith_uint256 × arith_uint256 :=
  if num ≥ div then (num - div, q ||| BitVec.twoPow 256 shift) else (num, q)

/-- The loop `while (shift >= 0)` of `operator/=` over the `n` positions
`n - 1, …, 0`, the divisor moved back one bit after each. -/
def divideLoop : Nat → arith_uint256 → arith_uint256 → arith_uint256 → arith_uint256 × arith_uint256
  | 0, num, _, q => (num, q)
  | n + 1, num, div, q =>
    divideLoop n (divideStep n num div q).1 (div >>> 1) (divideStep n num div q).2

/-- `base_uint::operator/=`; a zero divisor throws `uint_error`. -/
def divide (a b : arith_uint256) : Except String arith_uint256 :=
  let num_bits := bits a
  let div_bits := bits b
  if div_bits = 0 then throw "Division by zero"
  -- the result is certainly 0
  else if div_bits > num_bits then pure 0
  else
    let shift := num_bits - div_bits
    pure (divideLoop (shift + 1) a (b <<< shift) 0).2

/-- `arith_uint256::SetCompact`: the value, and what it writes through
`pfNegative` and `pfOverflow`. -/
def setCompact (nCompact : UInt32) : arith_uint256 × Bool × Bool :=
  let nSize := (nCompact >>> 24).toNat
  let nWord := nCompact &&& 0x007fffff
  let nWord := if nSize ≤ 3 then nWord >>> (8 * (3 - nSize)).toUInt32 else nWord
  let value : arith_uint256 :=
    if nSize ≤ 3 then BitVec.ofNat 256 nWord.toNat
    else BitVec.ofNat 256 nWord.toNat <<< (8 * (nSize - 3))
  let fNegative := nWord != 0 && (nCompact &&& 0x00800000) != 0
  let fOverflow := nWord != 0 &&
    (decide (nSize > 34) || (decide (nWord > 0xff) && decide (nSize > 33)) ||
      (decide (nWord > 0xffff) && decide (nSize > 32)))
  (value, fNegative, fOverflow)

/-- `UintToArith256`: the thirty-two bytes read little-endian. -/
def uintToArith256 (a : uint256) : arith_uint256 := BitVec.ofNat 256 (readLE a.data)

/-- `ArithToUint256`. -/
def arithToUint256 (a : arith_uint256) : uint256 := ⟨writeLE 32 a.toNat, length_writeLE 32 _⟩

@[simp] theorem toNat_uintToArith256 (a : uint256) : (uintToArith256 a).toNat = readLE a.data := by
  have hlt := readLE_lt a.data
  rw [a.length_data] at hlt
  rw [uintToArith256, BitVec.toNat_ofNat, Nat.mod_eq_of_lt (by simpa using hlt)]

theorem lt_two_pow_of_testBit_false {a n : Nat} (ha : a < 2 ^ (n + 1)) (hbit : a.testBit n = false) :
    a < 2 ^ n := by
  rw [Nat.testBit_eq_decide_div_mod_eq, decide_eq_false_iff_not] at hbit
  have hdiv : a / 2 ^ n < 2 := Nat.div_lt_of_lt_mul (by rw [← Nat.pow_succ]; exact ha)
  have hzero : a / 2 ^ n = 0 := by
    generalize a / 2 ^ n = k at hbit hdiv
    omega
  rwa [Nat.div_eq_zero_iff_lt (Nat.two_pow_pos n)] at hzero

theorem bitsBelow_spec (a : arith_uint256) {i : Nat} (ha : a.toNat < 2 ^ i) :
    bitsBelow a i ≤ i ∧ a.toNat < 2 ^ bitsBelow a i ∧
      (a.toNat ≠ 0 → 2 ^ (bitsBelow a i - 1) ≤ a.toNat) := by
  induction i with
  | zero => simp [bitsBelow] at ha ⊢; omega
  | succ i ih =>
    unfold bitsBelow
    split_ifs with hbit
    · rw [← BitVec.testBit_toNat] at hbit
      exact ⟨Nat.le_refl _, ha, fun _ => Nat.ge_two_pow_of_testBit hbit⟩
    · rw [← BitVec.testBit_toNat, Bool.not_eq_true] at hbit
      obtain ⟨hle, hlt, hge⟩ := ih (lt_two_pow_of_testBit_false ha hbit)
      exact ⟨Nat.le_succ_of_le hle, hlt, hge⟩

theorem bits_le (a : arith_uint256) : bits a ≤ 256 := (bitsBelow_spec a a.isLt).1

theorem lt_two_pow_bits (a : arith_uint256) : a.toNat < 2 ^ bits a := (bitsBelow_spec a a.isLt).2.1

theorem two_pow_bits_le {a : arith_uint256} (ha : a.toNat ≠ 0) : 2 ^ (bits a - 1) ≤ a.toNat :=
  (bitsBelow_spec a a.isLt).2.2 ha

theorem bitsBelow_zero (i : Nat) : bitsBelow 0 i = 0 := by
  induction i with
  | zero => rfl
  | succ i ih => simpa [bitsBelow] using ih

theorem bits_eq_zero_iff (a : arith_uint256) : bits a = 0 ↔ a = 0 := by
  constructor
  · intro h
    have hlt := lt_two_pow_bits a
    rw [h, Nat.pow_zero] at hlt
    exact BitVec.eq_of_toNat_eq (by simp; omega)
  · rintro rfl
    exact bitsBelow_zero 256

theorem toNat_or_twoPow {q : arith_uint256} {s : Nat} (hs : s < 256) (hq : 2 ^ (s + 1) ∣ q.toNat) :
    (q ||| BitVec.twoPow 256 s).toNat = q.toNat + 2 ^ s := by
  obtain ⟨k, hk⟩ := hq
  rw [BitVec.toNat_or, BitVec.toNat_twoPow, Nat.mod_eq_of_lt (Nat.pow_lt_pow_right (by decide) hs), hk,
    ← Nat.two_pow_add_eq_or_of_lt (Nat.pow_lt_pow_right (by decide) (Nat.lt_succ_self s))]

theorem divideStep_toNat {s d : Nat} (num : arith_uint256) {div q : arith_uint256} (hs : s < 256)
    (hdiv : div.toNat = d * 2 ^ s) (hq : 2 ^ (s + 1) ∣ q.toNat) :
    ((divideStep s num div q).1.toNat, (divideStep s num div q).2.toNat) =
      subtractStep d s num.toNat q.toNat := by
  unfold divideStep subtractStep
  rw [← hdiv]
  by_cases hle : div ≤ num
  · rw [if_pos hle, if_pos (BitVec.le_def.mp hle), BitVec.toNat_sub_of_le hle, toNat_or_twoPow hs hq]
  · rw [if_neg hle, if_neg (mt BitVec.le_def.mpr hle)]

theorem divideLoop_toNat {d : Nat} (n : Nat) (num div q : arith_uint256) (hn : n < 256)
    (hdiv : div.toNat = d * 2 ^ n) (hq : 2 ^ (n + 1) ∣ q.toNat) :
    ((divideLoop (n + 1) num div q).1.toNat, (divideLoop (n + 1) num div q).2.toNat) =
      shiftSubtract d (n + 1) num.toNat q.toNat := by
  induction n generalizing num div q with
  | zero => exact divideStep_toNat num hn hdiv hq
  | succ n ih =>
    have hstep := divideStep_toNat num hn hdiv hq
    have hshift : (div >>> 1).toNat = d * 2 ^ n := by
      rw [BitVec.toNat_ushiftRight, Nat.shiftRight_eq_div_pow, hdiv, Nat.pow_succ, ← Nat.mul_assoc,
        Nat.pow_one, Nat.mul_div_cancel _ (by decide)]
    have hq' : 2 ^ (n + 1) ∣ (divideStep (n + 1) num div q).2.toNat := by
      have hsnd : (divideStep (n + 1) num div q).2.toNat = (subtractStep d (n + 1) num.toNat q.toNat).2 :=
        congrArg Prod.snd hstep
      rw [hsnd]
      exact subtractStep_dvd hq
    rw [divideLoop, ih _ _ _ (by omega) hshift hq']
    conv_rhs => rw [shiftSubtract, ← hstep]

theorem toNat_shiftLeft_of_bits_le (b : arith_uint256) (shift : Nat) (h : bits b + shift ≤ 256) :
    (b <<< shift).toNat = b.toNat * 2 ^ shift := by
  have hlt : b.toNat * 2 ^ shift < 2 ^ 256 :=
    calc b.toNat * 2 ^ shift < 2 ^ bits b * 2 ^ shift :=
          Nat.mul_lt_mul_of_pos_right (lt_two_pow_bits b) (Nat.two_pow_pos _)
      _ = 2 ^ (bits b + shift) := (Nat.pow_add 2 _ _).symm
      _ ≤ 2 ^ 256 := Nat.pow_le_pow_right (by decide) h
  rw [BitVec.toNat_shiftLeft, Nat.shiftLeft_eq, Nat.mod_eq_of_lt hlt]

theorem divide_eq_ok (a : arith_uint256) {b : arith_uint256} (hb : b ≠ 0) : divide a b = .ok (a / b) := by
  have hbits : bits b ≠ 0 := (bits_eq_zero_iff b).not.mpr hb
  have hbpos : b.toNat ≠ 0 := fun h => hb (BitVec.eq_of_toNat_eq (by simpa using h))
  have ha := lt_two_pow_bits a
  have hb' := two_pow_bits_le hbpos
  unfold divide
  rw [if_neg hbits]
  by_cases hlt : bits b > bits a
  · -- `a < 2 ^ bits a ≤ 2 ^ (bits b - 1) ≤ b`
    have hpow : 2 ^ bits a ≤ 2 ^ (bits b - 1) := Nat.pow_le_pow_right (by decide) (by omega)
    rw [if_pos hlt]
    refine congrArg Except.ok (BitVec.eq_of_toNat_eq ?_)
    rw [BitVec.toNat_udiv, Nat.div_eq_of_lt (by omega)]
    rfl
  · rw [if_neg hlt]
    have hshift := toNat_shiftLeft_of_bits_le b (bits a - bits b) (by have := bits_le a; omega)
    -- the dividend is below the divisor aligned one position above the top
    have hr : a.toNat < b.toNat * 2 ^ (bits a - bits b + 1) :=
      calc a.toNat < 2 ^ bits a := ha
        _ = 2 ^ (bits b - 1) * 2 ^ (bits a - bits b + 1) := by rw [← Nat.pow_add]; congr 1; omega
        _ ≤ b.toNat * 2 ^ (bits a - bits b + 1) := Nat.mul_le_mul_right _ hb'
    have hloop := divideLoop_toNat (bits a - bits b) a (b <<< (bits a - bits b)) 0
      (by have := bits_le a; omega) hshift (by simp)
    rw [shiftSubtract_eq _ hr] at hloop
    refine congrArg Except.ok (BitVec.eq_of_toNat_eq ?_)
    have hquot := congrArg Prod.snd hloop
    dsimp only at hquot
    rw [hquot, BitVec.toNat_udiv]
    simp

theorem divide_zero (a : arith_uint256) : divide a 0 = .error "Division by zero" := by
  unfold divide
  rw [if_pos ((bits_eq_zero_iff 0).mpr rfl)]
  rfl

/-- The first word of `GetCompact` for a number of `nSize` bytes: its low
bytes moved up, or its top three bytes. -/
def compactWord (a : arith_uint256) (nSize : Nat) : UInt32 :=
  if nSize ≤ 3 then (UInt64.ofNat a.toNat <<< UInt64.ofNat (8 * (3 - nSize))).toUInt32
  else (UInt64.ofNat (a >>> (8 * (nSize - 3))).toNat).toUInt32

/-- `arith_uint256::GetCompact`: the size in bytes and the top three bytes. -/
def getCompact (a : arith_uint256) (fNegative : Bool) : UInt32 :=
  let nSize := (bits a + 7) / 8
  let nCompact := compactWord a nSize
  -- the 0x00800000 bit denotes the sign: a mantissa that has it moves down a byte
  let signBit := nCompact &&& 0x00800000 ≠ 0
  let nCompact := if signBit then nCompact >>> 8 else nCompact
  let nSize := if signBit then nSize + 1 else nSize
  let nCompact := nCompact ||| UInt32.ofNat nSize <<< 24
  nCompact ||| (if fNegative && nCompact &&& 0x007fffff != 0 then 0x00800000 else 0)

/-- The three top bytes of a number of `nSize` bytes. -/
def compactMantissa (a nSize : Nat) : Nat :=
  if nSize ≤ 3 then a * 2 ^ (8 * (3 - nSize)) else a / 2 ^ (8 * (nSize - 3))

/-- The size and the mantissa `GetCompact` packs, as numbers. -/
def compactParts (a nSize : Nat) : Nat × Nat :=
  if 2 ^ 23 ≤ compactMantissa a nSize then (nSize + 1, compactMantissa a nSize / 2 ^ 8)
  else (nSize, compactMantissa a nSize)

theorem and_twoPow_eq_zero_iff {n i : Nat} (h : n < 2 ^ (i + 1)) : n &&& 2 ^ i = 0 ↔ n < 2 ^ i := by
  constructor
  · intro hand
    by_contra hge
    have hbit : n.testBit i = true := by
      rw [Nat.testBit_eq_decide_div_mod_eq, decide_eq_true_eq]
      have hdiv : n / 2 ^ i = 1 := by
        rw [Nat.pow_succ] at h
        exact Nat.div_eq_of_lt_le (by omega) (by omega)
      rw [hdiv]
    have htest := Nat.testBit_and n (2 ^ i) i
    rw [hand, Nat.zero_testBit, hbit, Nat.testBit_two_pow_self] at htest
    exact absurd htest (by decide)
  · intro hlt
    apply Nat.eq_of_testBit_eq
    intro j
    rw [Nat.testBit_and, Nat.testBit_two_pow, Nat.zero_testBit]
    by_cases hij : i = j
    · subst hij
      rw [Nat.testBit_lt_two_pow hlt]
      rfl
    · simp [hij]

theorem compactMantissa_lt {a nSize : Nat} (ha : a < 2 ^ (8 * nSize)) : compactMantissa a nSize < 2 ^ 24 := by
  unfold compactMantissa
  split_ifs with hsmall
  · calc a * 2 ^ (8 * (3 - nSize)) < 2 ^ (8 * nSize) * 2 ^ (8 * (3 - nSize)) :=
          Nat.mul_lt_mul_of_pos_right ha (Nat.two_pow_pos _)
      _ = 2 ^ 24 := by rw [← Nat.pow_add]; congr 1; omega
  · rw [Nat.div_lt_iff_lt_mul (Nat.two_pow_pos _), ← Nat.pow_add]
    exact lt_of_lt_of_le ha (Nat.pow_le_pow_right (by decide) (by omega))

theorem toNat_compactWord (a : arith_uint256) {nSize : Nat} (ha : a.toNat < 2 ^ (8 * nSize)) :
    (compactWord a nSize).toNat = compactMantissa a.toNat nSize := by
  have hm := compactMantissa_lt ha
  unfold compactWord compactMantissa at *
  split_ifs with hsmall
  · rw [if_pos hsmall] at hm
    have hshift : 8 * (3 - nSize) % 2 ^ 64 % 64 = 8 * (3 - nSize) := by omega
    have ha64 : a.toNat < 2 ^ 64 :=
      lt_of_le_of_lt (Nat.le_mul_of_pos_right _ (Nat.two_pow_pos _)) (lt_trans hm (by decide))
    rw [UInt64.toNat_toUInt32, UInt64.toNat_shiftLeft, UInt64.toNat_ofNat', UInt64.toNat_ofNat', hshift,
      Nat.mod_eq_of_lt ha64, Nat.shiftLeft_eq]
    generalize a.toNat * 2 ^ (8 * (3 - nSize)) = d at hm ⊢
    omega
  · rw [if_neg hsmall] at hm
    rw [UInt64.toNat_toUInt32, UInt64.toNat_ofNat', BitVec.toNat_ushiftRight, Nat.shiftRight_eq_div_pow]
    generalize a.toNat / 2 ^ (8 * (nSize - 3)) = d at hm ⊢
    omega

theorem getCompact_eq (a : arith_uint256) :
    getCompact a false = UInt32.ofNat ((compactParts a.toNat ((bits a + 7) / 8)).1 * 2 ^ 24 +
      (compactParts a.toNat ((bits a + 7) / 8)).2) := by
  have hsize : a.toNat < 2 ^ (8 * ((bits a + 7) / 8)) :=
    lt_of_lt_of_le (lt_two_pow_bits a) (Nat.pow_le_pow_right (by decide) (by omega))
  have hword := toNat_compactWord a hsize
  have hm := compactMantissa_lt hsize
  have hsmall : (bits a + 7) / 8 < 64 := by have := bits_le a; omega
  unfold getCompact compactParts
  simp only [Bool.false_and, Bool.false_eq_true, ↓reduceIte, UInt32.or_zero]
  generalize compactWord a ((bits a + 7) / 8) = w at hword ⊢
  generalize compactMantissa a.toNat ((bits a + 7) / 8) = m at hword hm ⊢
  generalize (bits a + 7) / 8 = nSize at hsmall ⊢
  -- the sign bit of the word is bit 23 of the mantissa
  have hsign : (w &&& 0x00800000 ≠ 0) ↔ 2 ^ 23 ≤ m := by
    have hand : (w &&& 0x00800000).toNat = m &&& 2 ^ 23 := by rw [UInt32.toNat_and, hword]; rfl
    rw [Ne, ← UInt32.toNat_inj, hand, UInt32.toNat_zero, and_twoPow_eq_zero_iff (by omega)]
    omega
  apply UInt32.toNat_inj.mp
  have h24 : (24 : UInt32).toNat % 32 = 24 := rfl
  by_cases hbit : 2 ^ 23 ≤ m
  · -- the mantissa moves down a byte and the size goes up by one
    have hshl : (nSize + 1) <<< 24 < 2 ^ 32 := by rw [Nat.shiftLeft_eq]; omega
    have hlow : m >>> 8 < 2 ^ 24 := by rw [Nat.shiftRight_eq_div_pow]; omega
    rw [if_pos (hsign.mpr hbit), if_pos (hsign.mpr hbit), if_pos hbit, UInt32.toNat_or, UInt32.toNat_shiftRight,
      UInt32.toNat_shiftLeft, hword, UInt32.toNat_ofNat', UInt32.toNat_ofNat', Nat.mod_eq_of_lt (by omega : nSize + 1 < 2 ^ 32),
      h24, show (8 : UInt32).toNat % 32 = 8 from rfl, Nat.mod_eq_of_lt hshl,
      Nat.or_comm, ← Nat.shiftLeft_add_eq_or_of_lt hlow, Nat.shiftLeft_eq, Nat.shiftRight_eq_div_pow]
    omega
  · have hshl : nSize <<< 24 < 2 ^ 32 := by rw [Nat.shiftLeft_eq]; omega
    rw [if_neg (fun h => hbit (hsign.mp h)), if_neg (fun h => hbit (hsign.mp h)), if_neg hbit, UInt32.toNat_or,
      UInt32.toNat_shiftLeft, hword, UInt32.toNat_ofNat', UInt32.toNat_ofNat', Nat.mod_eq_of_lt (by omega : nSize < 2 ^ 32),
      h24, Nat.mod_eq_of_lt hshl, Nat.or_comm, ← Nat.shiftLeft_add_eq_or_of_lt (by omega : m < 2 ^ 24), Nat.shiftLeft_eq]
    omega

theorem setCompact_fst_toNat {s m : Nat} (hm : m < 2 ^ 23) (hs : s < 256) :
    (setCompact (UInt32.ofNat (s * 2 ^ 24 + m))).1.toNat =
      if s ≤ 3 then m / 2 ^ (8 * (3 - s)) else m * 2 ^ (8 * (s - 3)) % 2 ^ 256 := by
  have hc : (UInt32.ofNat (s * 2 ^ 24 + m)).toNat = s * 2 ^ 24 + m := by
    rw [UInt32.toNat_ofNat']
    omega
  have hsize : (UInt32.ofNat (s * 2 ^ 24 + m) >>> 24).toNat = s := by
    rw [UInt32.toNat_shiftRight, hc, show (24 : UInt32).toNat % 32 = 24 from rfl, Nat.shiftRight_eq_div_pow]
    omega
  have hword : (UInt32.ofNat (s * 2 ^ 24 + m) &&& 0x007fffff).toNat = m := by
    rw [UInt32.toNat_and, hc, show (0x007fffff : UInt32).toNat = 2 ^ 23 - 1 from rfl,
      Nat.and_two_pow_sub_one_eq_mod]
    omega
  unfold setCompact
  simp only [hsize]
  split_ifs with hsmall
  · have hshift : (8 * (3 - s)).toUInt32.toNat % 32 = 8 * (3 - s) := by
      rw [Nat.toUInt32, UInt32.toNat_ofNat']
      omega
    rw [BitVec.toNat_ofNat, UInt32.toNat_shiftRight, hword, hshift, Nat.shiftRight_eq_div_pow,
      Nat.mod_eq_of_lt (lt_of_le_of_lt (Nat.div_le_self _ _) (by omega))]
  · rw [BitVec.toNat_shiftLeft, BitVec.toNat_ofNat, hword, Nat.mod_eq_of_lt (by omega : m < 2 ^ 256), Nat.shiftLeft_eq]

theorem setCompact_getCompact {a : arith_uint256} (ha : a ≠ 0) :
    ∃ e, (setCompact (getCompact a false)).1.toNat = a.toNat / 2 ^ (8 * e) * 2 ^ (8 * e) ∧
      0 < a.toNat / 2 ^ (8 * e) := by
  have hpos : a.toNat ≠ 0 := fun h => ha (BitVec.eq_of_toNat_eq (by simpa using h))
  have hbits := bits_le a
  have hbits0 : bits a ≠ 0 := (bits_eq_zero_iff a).not.mpr ha
  have hhi : a.toNat < 2 ^ (8 * ((bits a + 7) / 8)) :=
    lt_of_lt_of_le (lt_two_pow_bits a) (Nat.pow_le_pow_right (by decide) (by omega))
  have hlo : 2 ^ (8 * ((bits a + 7) / 8) - 8) ≤ a.toNat :=
    le_trans (Nat.pow_le_pow_right (by decide) (by omega)) (two_pow_bits_le hpos)
  have hm := compactMantissa_lt hhi
  have ha256 := a.isLt
  rw [getCompact_eq]
  generalize (bits a + 7) / 8 = n at hhi hlo hm
  have hn : n ≤ 32 := by
    by_contra hn
    have : 2 ^ 256 ≤ 2 ^ (8 * n - 8) := Nat.pow_le_pow_right (by decide) (by omega)
    omega
  generalize a.toNat = x at hpos hhi hlo hm ha256 ⊢
  unfold compactParts compactMantissa at *
  by_cases hsmall : n ≤ 3
  · rw [if_pos hsmall] at hm ⊢
    by_cases hbit : 2 ^ 23 ≤ x * 2 ^ (8 * (3 - n))
    · rw [if_pos hbit]
      simp only
      rw [setCompact_fst_toNat (by omega) (by omega)]
      by_cases hn3 : n + 1 ≤ 3
      · -- below four bytes the mantissa is read back whole
        refine ⟨0, ?_, by simpa using Nat.pos_of_ne_zero hpos⟩
        have hsplit : 2 ^ (8 * (3 - n)) = 2 ^ 8 * 2 ^ (8 * (3 - (n + 1))) := by
          rw [← Nat.pow_add]; congr 1; omega
        rw [if_pos hn3, hsplit, ← Nat.mul_assoc, Nat.mul_right_comm, Nat.mul_div_cancel _ (Nat.two_pow_pos 8),
          Nat.mul_div_cancel _ (Nat.two_pow_pos _)]
        simp
      · -- three bytes with the sign bit: the lowest byte goes
        have hn3' : n = 3 := by omega
        subst hn3'
        refine ⟨1, ?_, ?_⟩
        · rw [if_neg hn3]
          simp only [Nat.sub_self, Nat.mul_zero, Nat.pow_zero, Nat.mul_one]
          rw [Nat.mod_eq_of_lt (lt_of_le_of_lt (Nat.div_mul_le_self _ _) ha256)]
        · simp only [Nat.sub_self, Nat.mul_zero, Nat.pow_zero, Nat.mul_one] at hbit
          exact Nat.div_pos (by omega) (by decide)
    · rw [if_neg hbit]
      simp only
      rw [setCompact_fst_toNat (by omega) (by omega), if_pos hsmall, Nat.mul_div_cancel _ (Nat.two_pow_pos _)]
      exact ⟨0, by simp, by simpa using Nat.pos_of_ne_zero hpos⟩
  · rw [if_neg hsmall] at hm ⊢
    have hq : 0 < x / 2 ^ (8 * (n - 3)) :=
      Nat.div_pos (le_trans (Nat.pow_le_pow_right (by decide) (by omega)) hlo) (Nat.two_pow_pos _)
    by_cases hbit : 2 ^ 23 ≤ x / 2 ^ (8 * (n - 3))
    · -- the sign bit: one byte more is cleared
      rw [if_pos hbit]
      simp only
      rw [setCompact_fst_toNat (by omega) (by omega), if_neg (by omega)]
      have hdiv : x / 2 ^ (8 * (n - 3)) / 2 ^ 8 = x / 2 ^ (8 * (n + 1 - 3)) := by
        rw [Nat.div_div_eq_div_mul, ← Nat.pow_add]; congr 2; omega
      rw [hdiv, Nat.mod_eq_of_lt (lt_of_le_of_lt (Nat.div_mul_le_self _ _) ha256)]
      exact ⟨n + 1 - 3, rfl, by rw [← hdiv]; exact Nat.div_pos (by omega) (by decide)⟩
    · rw [if_neg hbit]
      simp only
      rw [setCompact_fst_toNat (by omega) (by omega), if_neg hsmall,
        Nat.mod_eq_of_lt (lt_of_le_of_lt (Nat.div_mul_le_self _ _) ha256)]
      exact ⟨n - 3, rfl, hq⟩

end YuPost.Primitives
