import YuPost.Script.Script

/-! `CScriptNum` of `script/script.h` as the contract scripts use it: the
writer `serialize` (`getvch`), sign and magnitude, least significant byte
first, with no more bytes than the value needs, and the reader
`vch_to_uint64`, which takes at most eight bytes, reads them unsigned and
throws on a set top bit. The reader's two exceptions are the errors of
`Except`. -/

namespace YuPost.Script

open YuPost.Lib

/-- The bytes the loop of `CScriptNum::serialize` pushes for `absvalue`, least
significant first, until nothing is left; a `uint64_t` is done in eight turns. -/
def serializeMagnitude : Nat → Nat → List UInt8
  | 0, _ => []
  | fuel + 1, absvalue =>
    if absvalue = 0 then [] else UInt8.ofNat absvalue :: serializeMagnitude fuel (absvalue / 256)

/-- `CScriptNum::serialize`: the magnitude, then a sign bit, in a byte of its
own where the last byte of the magnitude has its top bit set. -/
def CScriptNum.serialize (value : Int) : valtype :=
  if value = 0 then []
  else
    let neg := decide (value < 0)
    let result := serializeMagnitude 8 value.natAbs
    if result.getLastD 0 &&& 0x80 ≠ 0 then result ++ [if neg then 0x80 else 0]
    else if neg then result.dropLast ++ [result.getLastD 0 ||| 0x80]
    else result

/-- `CScriptNum::vch_to_uint64`. -/
def CScriptNum.vchToUint64 (vch : valtype) : Except String Nat :=
  if vch.length > 8 then throw "script number overflow"
  else if vch.isEmpty then pure 0
  else if vch.getLastD 0 &&& 0x80 ≠ 0 then throw "Negative gas value."
  else pure (readLE vch)

theorem topBit_ne_zero_iff (b : UInt8) : b &&& 0x80 ≠ 0 ↔ 128 ≤ b.toNat := by
  have hb := b.toNat_lt
  -- `n &&& 128` keeps bit 7 of `n` and nothing below it
  have hmod : (b.toNat &&& 128) % 128 = 0 := by
    rw [show (128 : Nat) = 2 ^ 7 from rfl, Nat.and_mod_two_pow]
    simp
  have hdiv : (b.toNat &&& 128) / 128 = b.toNat / 128 := by
    rw [show (128 : Nat) = 2 ^ 7 from rfl, Nat.and_div_two_pow, Nat.div_self (Nat.two_pow_pos 7),
      Nat.and_one_is_mod]
    omega
  rw [ne_eq, ← UInt8.toNat_inj, UInt8.toNat_and]
  simp only [UInt8.reduceToNat]
  omega

theorem readLE_serializeMagnitude {fuel n : Nat} (h : n < 256 ^ fuel) :
    readLE (serializeMagnitude fuel n) = n := by
  induction fuel generalizing n with
  | zero =>
    have hn : n = 0 := by simpa using h
    simp [serializeMagnitude, hn]
  | succ fuel ih =>
    unfold serializeMagnitude
    split_ifs with hn
    · simp [hn]
    · have hdiv : n / 256 < 256 ^ fuel := by
        rw [Nat.pow_succ] at h
        omega
      rw [readLE_cons, ih hdiv, UInt8.toNat_ofNat']
      omega

theorem length_serializeMagnitude_le {fuel n k : Nat} (h : n < 256 ^ k) :
    (serializeMagnitude fuel n).length ≤ k := by
  induction fuel generalizing n k with
  | zero => simp [serializeMagnitude]
  | succ fuel ih =>
    unfold serializeMagnitude
    split_ifs with hn
    · simp
    · cases k with
      | zero => simp at h; omega
      | succ k =>
        have hdiv : n / 256 < 256 ^ k := by
          rw [Nat.pow_succ] at h
          omega
        simpa using ih hdiv

theorem length_serializeMagnitude_le_fuel (fuel n : Nat) :
    (serializeMagnitude fuel n).length ≤ fuel := by
  induction fuel generalizing n with
  | zero => simp [serializeMagnitude]
  | succ fuel ih =>
    unfold serializeMagnitude
    split_ifs
    · simp
    · simpa using ih (n / 256)

theorem length_serialize_le (value : Int) : (CScriptNum.serialize value).length ≤ 9 := by
  have h := length_serializeMagnitude_le_fuel 8 value.natAbs
  unfold CScriptNum.serialize
  dsimp only
  -- no number, a sign byte of either sign after the magnitude, the sign in the
  -- magnitude's last byte, or the magnitude alone
  split_ifs
  · simp
  · simp only [List.length_append, List.length_singleton]
    omega
  · simp only [List.length_append, List.length_singleton]
    omega
  · simp only [List.length_append, List.length_dropLast, List.length_singleton]
    omega
  · omega

theorem serialize_natCast (n : Nat) :
    CScriptNum.serialize n =
      if n = 0 then []
      else if (serializeMagnitude 8 n).getLastD 0 &&& 0x80 ≠ 0 then serializeMagnitude 8 n ++ [0]
      else serializeMagnitude 8 n := by
  have hneg : ¬(n : Int) < 0 := by omega
  simp [CScriptNum.serialize, hneg]

theorem serialize_natCast_spec {n k : Nat} (hk : k ≤ 7) (h : n < 128 * 256 ^ k) :
    (CScriptNum.serialize n).length ≤ k + 1 ∧ readLE (CScriptNum.serialize n) = n ∧
      (CScriptNum.serialize n).getLastD 0 &&& 0x80 = 0 := by
  have hpow : 128 * 256 ^ k ≤ 256 ^ (k + 1) := by
    rw [Nat.pow_succ]
    omega
  have hpow8 : 256 ^ (k + 1) ≤ 256 ^ 8 := Nat.pow_le_pow_right (by decide) (by omega)
  have hread : readLE (serializeMagnitude 8 n) = n := readLE_serializeMagnitude (by omega)
  have hlen : (serializeMagnitude 8 n).length ≤ k + 1 := length_serializeMagnitude_le (by omega)
  have hlast := getLastD_mul_le_readLE (serializeMagnitude 8 n)
  rw [serialize_natCast]
  split_ifs with hn htop
  · simp [hn]
  · -- the sign byte fits: a magnitude of `k + 1` bytes has its top byte below 128
    rw [topBit_ne_zero_iff] at htop
    have hshort : (serializeMagnitude 8 n).length ≤ k := by
      by_contra hlong
      have hk1 : (serializeMagnitude 8 n).length - 1 = k := by omega
      rw [hk1, hread] at hlast
      have := Nat.mul_le_mul_right (256 ^ k) htop
      omega
    refine ⟨by simp; omega, by simp [readLE_append, hread], by simp⟩
  · exact ⟨hlen, hread, by simpa using htop⟩

theorem vchToUint64_serialize {n : Nat} (h : n < 2 ^ 63) :
    CScriptNum.vchToUint64 (CScriptNum.serialize n) = .ok n := by
  obtain ⟨hlen, hread, htop⟩ := serialize_natCast_spec (k := 7) (by decide) (by simpa using h)
  unfold CScriptNum.vchToUint64
  rw [if_neg (by omega)]
  by_cases hempty : (CScriptNum.serialize n).isEmpty = true
  · rw [if_pos hempty]
    rw [List.isEmpty_iff.mp hempty] at hread
    simp [← hread, pure, Except.pure]
  · rw [if_neg hempty, if_neg (not_not.mpr htop), hread]
    rfl

theorem length_serialize_le_four {n : Nat} (h : n < 2 ^ 31) : (CScriptNum.serialize n).length ≤ 4 :=
  (serialize_natCast_spec (k := 3) (by decide) (by simpa using h)).1

end YuPost.Script
