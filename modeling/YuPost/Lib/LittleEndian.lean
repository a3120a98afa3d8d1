import Mathlib.Data.List.Basic
import Mathlib.Tactic.Ring

/-! Little-endian byte strings of natural numbers: `k` bytes of `x` (the value
taken modulo `256 ^ k`, as a C++ conversion to a narrower unsigned type does),
and the value of a byte string read least significant byte first. Nothing here
names the program; the script, serialization and amount modules read and
write their integers through these two functions. -/

namespace YuPost.Lib

def writeLE : Nat → Nat → List UInt8
  | 0, _ => []
  | k + 1, x => UInt8.ofNat x :: writeLE k (x / 256)

def readLE : List UInt8 → Nat
  | [] => 0
  | b :: bs => b.toNat + 256 * readLE bs

@[simp] theorem length_writeLE (k x : Nat) : (writeLE k x).length = k := by
  induction k generalizing x with
  | zero => rfl
  | succ k ih => simp [writeLE, ih]

@[simp] theorem readLE_nil : readLE [] = 0 := rfl

@[simp] theorem readLE_cons (b : UInt8) (bs : List UInt8) :
    readLE (b :: bs) = b.toNat + 256 * readLE bs := rfl

theorem readLE_append (xs ys : List UInt8) :
    readLE (xs ++ ys) = readLE xs + 256 ^ xs.length * readLE ys := by
  induction xs with
  | nil => simp
  | cons b bs ih =>
    simp only [List.cons_append, readLE_cons, ih, List.length_cons, Nat.pow_succ]
    ring

theorem readLE_lt (bs : List UInt8) : readLE bs < 256 ^ bs.length := by
  induction bs with
  | nil => simp
  | cons b bs ih =>
    have hb : b.toNat < 256 := b.toNat_lt
    rw [readLE_cons, List.length_cons, Nat.pow_succ]
    omega

theorem readLE_writeLE (k x : Nat) : readLE (writeLE k x) = x % 256 ^ k := by
  induction k generalizing x with
  | zero => simp [writeLE, Nat.mod_one]
  | succ k ih =>
    rw [writeLE, readLE_cons, ih, UInt8.toNat_ofNat', show (2 : Nat) ^ 8 = 256 from rfl,
      show 256 ^ (k + 1) = 256 * 256 ^ k by ring, Nat.mod_mul]

theorem writeLE_readLE (bs : List UInt8) : writeLE bs.length (readLE bs) = bs := by
  induction bs with
  | nil => rfl
  | cons b bs ih =>
    have hb : b.toNat < 256 := b.toNat_lt
    simp only [List.length_cons, writeLE, readLE_cons]
    congr 1
    · apply UInt8.toNat_inj.mp
      rw [UInt8.toNat_ofNat', show 2 ^ 8 = 256 from rfl]
      omega
    · rw [show (b.toNat + 256 * readLE bs) / 256 = readLE bs by omega, ih]

theorem writeLE_injective {k x y : Nat} (hx : x < 256 ^ k) (hy : y < 256 ^ k)
    (h : writeLE k x = writeLE k y) : x = y := by
  have := congrArg readLE h
  rwa [readLE_writeLE, readLE_writeLE, Nat.mod_eq_of_lt hx, Nat.mod_eq_of_lt hy] at this

theorem getLastD_mul_le_readLE (bs : List UInt8) :
    (bs.getLastD 0).toNat * 256 ^ (bs.length - 1) ≤ readLE bs := by
  induction bs with
  | nil => simp
  | cons b bs ih =>
    cases bs with
    | nil => simp
    | cons c cs =>
      simp only [List.length_cons, Nat.add_sub_cancel] at ih ⊢
      calc ((c :: cs).getLastD 0).toNat * 256 ^ (cs.length + 1)
          = 256 * (((c :: cs).getLastD 0).toNat * 256 ^ cs.length) := by ring
        _ ≤ 256 * readLE (c :: cs) := Nat.mul_le_mul_left 256 ih
        _ ≤ readLE (b :: c :: cs) := by rw [readLE_cons b]; omega

end YuPost.Lib
