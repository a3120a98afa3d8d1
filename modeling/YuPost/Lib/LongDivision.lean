import Mathlib.Algebra.Order.Group.Nat

/-! Binary long division by shift and subtract. The divisor, aligned below
the dividend, is walked back one bit at a time; at each position it is taken
from the remainder where it fits, and the position's bit is added to the
quotient. Once the remainder is below the divisor times `2 ^ n`, `n` positions
give the Euclidean quotient and remainder. -/

namespace YuPost.Lib

/-- One position of the loop: remainder first, quotient second. -/
def subtractStep (d s r q : Nat) : Nat × Nat :=
  if d * 2 ^ s ≤ r then (r - d * 2 ^ s, q + 2 ^ s) else (r, q)

/-- The positions `n - 1, …, 0`, highest first. -/
def shiftSubtract (d : Nat) : Nat → Nat → Nat → Nat × Nat
  | 0, r, q => (r, q)
  | n + 1, r, q => shiftSubtract d n (subtractStep d n r q).1 (subtractStep d n r q).2

theorem subtractStep_equation (d s r q : Nat) :
    (subtractStep d s r q).2 * d + (subtractStep d s r q).1 = q * d + r := by
  unfold subtractStep
  split_ifs with h
  · have hmul : (q + 2 ^ s) * d = q * d + d * 2 ^ s := by rw [Nat.add_mul, Nat.mul_comm (2 ^ s)]
    simp only
    omega
  · rfl

theorem subtractStep_lt {d s r : Nat} (q : Nat) (hr : r < d * 2 ^ (s + 1)) :
    (subtractStep d s r q).1 < d * 2 ^ s := by
  have htwice : d * 2 ^ (s + 1) = d * 2 ^ s + d * 2 ^ s := by rw [Nat.pow_succ, ← Nat.mul_assoc]; omega
  unfold subtractStep
  split_ifs with h <;> simp only <;> omega

theorem subtractStep_dvd {d s r q : Nat} (hq : 2 ^ (s + 1) ∣ q) :
    2 ^ s ∣ (subtractStep d s r q).2 := by
  have hs : 2 ^ s ∣ q := Nat.dvd_trans (Nat.pow_dvd_pow 2 (Nat.le_succ s)) hq
  unfold subtractStep
  split_ifs
  · exact Nat.dvd_add hs (Nat.dvd_refl _)
  · exact hs

theorem shiftSubtract_equation (d n r q : Nat) :
    (shiftSubtract d n r q).2 * d + (shiftSubtract d n r q).1 = q * d + r := by
  induction n generalizing r q with
  | zero => rfl
  | succ n ih => rw [shiftSubtract, ih, subtractStep_equation]

theorem shiftSubtract_lt {d n r : Nat} (q : Nat) (hr : r < d * 2 ^ n) :
    (shiftSubtract d n r q).1 < d := by
  induction n generalizing r q with
  | zero => simpa [shiftSubtract] using hr
  | succ n ih => exact ih _ (subtractStep_lt q hr)

theorem shiftSubtract_eq {d n r : Nat} (q : Nat) (hr : r < d * 2 ^ n) :
    shiftSubtract d n r q = (r % d, q + r / d) := by
  have hlt := shiftSubtract_lt q hr
  have heq := shiftSubtract_equation d n r q
  have hd : 0 < d := Nat.pos_of_ne_zero fun h => by simp [h] at hr
  generalize shiftSubtract d n r q = res at hlt heq ⊢
  obtain ⟨r', q'⟩ := res
  simp only at hlt heq
  -- `q' d + r' = q d + r` with `r' < d` fixes both parts
  have hq : q ≤ q' := by
    by_contra hlt'
    have hmul : (q' + 1) * d ≤ q * d := Nat.mul_le_mul_right d (by omega)
    rw [Nat.add_mul, Nat.one_mul] at hmul
    omega
  have hsplit : r = (q' - q) * d + r' := by
    have hmul := Nat.mul_le_mul_right d hq
    rw [Nat.sub_mul]
    omega
  have hmod : r % d = r' := by
    rw [hsplit, Nat.mul_comm, Nat.mul_add_mod, Nat.mod_eq_of_lt hlt]
  have hdiv : r / d = q' - q := by
    rw [hsplit, Nat.mul_comm, Nat.mul_add_div hd, Nat.div_eq_of_lt hlt, Nat.add_zero]
  rw [hmod, hdiv, Nat.add_sub_cancel' hq]

end YuPost.Lib
