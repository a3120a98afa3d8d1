import Mathlib.Analysis.Complex.Exponential

/-! The Taylor series of `a · exp (± x / q)` evaluated in natural numbers with
every term rounded down: each term is the last one times `x`, divided by `q`
and by its index. A term is at most the real one, so the sum of the terms is
at most `a · exp (x / q)`; when `x ≤ q` the terms do not grow, and the
alternating sum stays between `a - ⌊a x / q⌋` and `a`. A term is zero once
`n!` outgrows `a · c ^ n`, where `x ≤ c q`. -/

namespace YuPost.Lib

open Finset

/-- The floored terms: `a`, then each the last times `x`, divided by `q` and
by its index. -/
def expTerm (a x q : ℕ) : ℕ → ℕ
  | 0 => a
  | n + 1 => expTerm a x q n * x / q / (n + 1)

/-- The sign of term `n`: alternating when the exponent is negative. -/
def expSign (neg : Bool) (n : ℕ) : ℤ := if neg then (-1) ^ n else 1

/-- The partial sum of the signed terms `0, …, n`. -/
def expSum (neg : Bool) (a x q n : ℕ) : ℤ := ∑ i ∈ range (n + 1), expSign neg i * expTerm a x q i

theorem alternating_sum_bounds {f : ℕ → ℤ} (hf : Antitone f) (hpos : ∀ n, 0 ≤ f n) (n : ℕ) :
    f 0 - f 1 ≤ ∑ i ∈ range (n + 1), (-1) ^ i * f i ∧ ∑ i ∈ range (n + 1), (-1) ^ i * f i ≤ f 0 := by
  induction n generalizing f with
  | zero => simpa using hpos 1
  | succ n ih =>
    -- the first term, less the alternating sum of the others
    have hshift : ∑ i ∈ range (n + 2), (-1) ^ i * f i = f 0 - ∑ i ∈ range (n + 1), (-1) ^ i * f (i + 1) := by
      rw [sum_range_succ', pow_zero, one_mul]
      simp only [pow_succ, mul_neg_one, neg_mul, sum_neg_distrib]
      ring
    obtain ⟨hlo, hhi⟩ := ih (f := fun i => f (i + 1)) (fun i j hij => hf (Nat.succ_le_succ hij))
      (fun i => hpos (i + 1))
    have h21 : f 2 ≤ f 1 := hf (by decide)
    rw [hshift]
    constructor <;> linarith [hpos 2]

section Terms

variable {a x q : ℕ}

@[simp] theorem expTerm_zero : expTerm a x q 0 = a := rfl

theorem expTerm_succ (n : ℕ) : expTerm a x q (n + 1) = expTerm a x q n * x / q / (n + 1) := rfl

theorem expTerm_mul_le (n : ℕ) : expTerm a x q n * (q ^ n * n.factorial) ≤ a * x ^ n := by
  induction n with
  | zero => simp
  | succ n ih =>
    -- one step loses what its two floors drop
    have hstep : expTerm a x q (n + 1) * (q * (n + 1)) ≤ expTerm a x q n * x := by
      rw [expTerm_succ, Nat.div_div_eq_div_mul]
      exact Nat.div_mul_le_self _ _
    calc expTerm a x q (n + 1) * (q ^ (n + 1) * (n + 1).factorial)
        = expTerm a x q (n + 1) * (q * (n + 1)) * (q ^ n * n.factorial) := by
          rw [Nat.pow_succ, Nat.factorial_succ]
          ring
      _ ≤ expTerm a x q n * x * (q ^ n * n.factorial) := Nat.mul_le_mul_right _ hstep
      _ = expTerm a x q n * (q ^ n * n.factorial) * x := by ring
      _ ≤ a * x ^ n * x := Nat.mul_le_mul_right _ ih
      _ = a * x ^ (n + 1) := by rw [Nat.pow_succ, Nat.mul_assoc]

theorem expTerm_le_real (hq : 0 < q) (n : ℕ) :
    (expTerm a x q n : ℝ) ≤ a * ((x : ℝ) / q) ^ n / n.factorial := by
  have hcast : (expTerm a x q n : ℝ) * (q ^ n * n.factorial) ≤ a * x ^ n := by
    exact_mod_cast expTerm_mul_le n
  have hq' : (q : ℝ) ≠ 0 := by positivity
  have hpos : (0 : ℝ) < q ^ n * n.factorial := by positivity
  calc (expTerm a x q n : ℝ) ≤ a * x ^ n / (q ^ n * n.factorial) := (le_div_iff₀ hpos).mpr hcast
    _ = a * ((x : ℝ) / q) ^ n / n.factorial := by
      rw [div_pow]
      field_simp

theorem expTerm_eq_zero_of_lt {c n : ℕ} (hq : 0 < q) (hx : x ≤ c * q) (h : a * c ^ n < n.factorial) :
    expTerm a x q n = 0 := by
  have hbound : expTerm a x q n * n.factorial * q ^ n ≤ a * c ^ n * q ^ n :=
    calc expTerm a x q n * n.factorial * q ^ n = expTerm a x q n * (q ^ n * n.factorial) := by ring
      _ ≤ a * x ^ n := expTerm_mul_le n
      _ ≤ a * (c * q) ^ n := Nat.mul_le_mul_left _ (Nat.pow_le_pow_left hx n)
      _ = a * c ^ n * q ^ n := by rw [Nat.mul_pow, Nat.mul_assoc]
  have hle := Nat.le_of_mul_le_mul_right hbound (Nat.pow_pos hq)
  by_contra hne
  have hfact : n.factorial ≤ expTerm a x q n * n.factorial :=
    Nat.le_mul_of_pos_left _ (Nat.pos_of_ne_zero hne)
  omega

theorem expTerm_eq_zero_of_le {n m : ℕ} (h : expTerm a x q n = 0) (hnm : n ≤ m) : expTerm a x q m = 0 := by
  induction m, hnm using Nat.le_induction with
  | base => exact h
  | succ m _ ih => rw [expTerm_succ, ih, Nat.zero_mul, Nat.zero_div, Nat.zero_div]

theorem expTerm_succ_le_mul (n : ℕ) : expTerm a x q (n + 1) ≤ expTerm a x q n * x := by
  rw [expTerm_succ]
  exact (Nat.div_le_self _ _).trans (Nat.div_le_self _ _)

theorem expTerm_succ_le (hx : x ≤ q) (n : ℕ) : expTerm a x q (n + 1) ≤ expTerm a x q n := by
  rw [expTerm_succ]
  calc expTerm a x q n * x / q / (n + 1) ≤ expTerm a x q n * x / q := Nat.div_le_self _ _
    _ ≤ expTerm a x q n := Nat.div_le_of_le_mul (by rw [Nat.mul_comm q]; exact Nat.mul_le_mul_left _ hx)

theorem expTerm_le (hx : x ≤ q) (n : ℕ) : expTerm a x q n ≤ a := by
  induction n with
  | zero => exact le_refl a
  | succ n ih => exact (expTerm_succ_le hx n).trans ih

end Terms

section Sums

variable {a x q : ℕ}

theorem expSign_eq_ite (neg : Bool) (n : ℕ) : expSign neg n = if neg = true ∧ n % 2 = 1 then -1 else 1 := by
  unfold expSign
  cases neg with
  | false => simp
  | true =>
    rcases Nat.mod_two_eq_zero_or_one n with h | h
    · simp [h, Even.neg_one_pow (Nat.even_iff.mpr h)]
    · simp [h, Odd.neg_one_pow (Nat.odd_iff.mpr h)]

theorem expSum_zero (neg : Bool) : expSum neg a x q 0 = a := by
  simp [expSum, expSign]

theorem expSum_succ (neg : Bool) (n : ℕ) :
    expSum neg a x q (n + 1) = expSum neg a x q n + expSign neg (n + 1) * expTerm a x q (n + 1) :=
  sum_range_succ _ _

theorem expSum_eq_of_expTerm_eq_zero (neg : Bool) {k n : ℕ} (h : expTerm a x q k = 0) (hkn : k ≤ n) :
    expSum neg a x q n = expSum neg a x q k := by
  induction n, hkn using Nat.le_induction with
  | base => rfl
  | succ n hkn ih => rw [expSum_succ, ih, expTerm_eq_zero_of_le h (Nat.le_succ_of_le hkn), Nat.cast_zero, mul_zero,
      add_zero]

theorem le_expSum_false (n : ℕ) : (a : ℤ) ≤ expSum false a x q n := by
  rw [expSum, sum_range_succ']
  simp only [expSign, Bool.false_eq_true, ↓reduceIte, one_mul, expTerm_zero]
  have hnonneg : 0 ≤ ∑ i ∈ range n, (expTerm a x q (i + 1) : ℤ) := sum_nonneg fun i _ => Int.natCast_nonneg _
  omega

theorem expTerm_le_expSum_false (n : ℕ) : (expTerm a x q n : ℤ) ≤ expSum false a x q n := by
  rw [expSum, sum_range_succ]
  simp only [expSign, Bool.false_eq_true, ↓reduceIte, one_mul]
  have hnonneg : 0 ≤ ∑ i ∈ range n, (expTerm a x q i : ℤ) := sum_nonneg fun i _ => Int.natCast_nonneg _
  omega

theorem expSum_false_le_exp (hq : 0 < q) (n : ℕ) : (expSum false a x q n : ℝ) ≤ a * Real.exp (x / q) := by
  calc (expSum false a x q n : ℝ) = ∑ i ∈ range (n + 1), (expTerm a x q i : ℝ) := by
        simp [expSum, expSign]
    _ ≤ ∑ i ∈ range (n + 1), (a : ℝ) * ((x : ℝ) / q) ^ i / i.factorial :=
        sum_le_sum fun i _ => expTerm_le_real hq i
    _ = a * ∑ i ∈ range (n + 1), ((x : ℝ) / q) ^ i / i.factorial := by
        rw [mul_sum]
        simp only [mul_div_assoc]
    _ ≤ a * Real.exp (x / q) :=
        mul_le_mul_of_nonneg_left (Real.sum_le_exp_of_nonneg (by positivity) _) (by positivity)

theorem expSum_false_le_mul (hq : 0 < q) {c M : ℕ} (hx : x ≤ c * q) (hM : Real.exp c ≤ M) (n : ℕ) :
    expSum false a x q n ≤ a * M := by
  have hratio : (x : ℝ) / q ≤ c := by
    rw [div_le_iff₀ (by exact_mod_cast hq)]
    exact_mod_cast hx
  have hreal : (expSum false a x q n : ℝ) ≤ a * M :=
    calc (expSum false a x q n : ℝ) ≤ a * Real.exp (x / q) := expSum_false_le_exp hq n
      _ ≤ a * Real.exp c := mul_le_mul_of_nonneg_left (Real.exp_le_exp.mpr hratio) (by positivity)
      _ ≤ a * M := mul_le_mul_of_nonneg_left hM (by positivity)
  exact_mod_cast hreal

theorem expSum_true_bounds (hx : x ≤ q) (n : ℕ) :
    (a : ℤ) - expTerm a x q 1 ≤ expSum true a x q n ∧ expSum true a x q n ≤ a := by
  have hanti : Antitone fun i => (expTerm a x q i : ℤ) :=
    antitone_nat_of_succ_le fun i => by exact_mod_cast expTerm_succ_le hx i
  have hbounds := alternating_sum_bounds hanti (fun i => Int.natCast_nonneg _) n
  simpa [expSum, expSign] using hbounds

theorem expSum_true_ge (hq : 0 < q) (hx : x ≤ q) (n : ℕ) :
    (a : ℝ) * (1 - x / q) ≤ expSum true a x q n := by
  have hlo : ((a : ℤ) - expTerm a x q 1 : ℝ) ≤ expSum true a x q n := by
    exact_mod_cast (expSum_true_bounds hx n).1
  have hfirst := expTerm_le_real (a := a) (x := x) hq 1
  simp only [pow_one, Nat.factorial_one, Nat.cast_one, div_one] at hfirst
  push_cast at hlo
  nlinarith

theorem expSum_ge (hq : 0 < q) (hx : x ≤ q) (neg : Bool) (n : ℕ) : (a : ℝ) * (1 - x / q) ≤ expSum neg a x q n := by
  cases neg with
  | true => exact expSum_true_ge hq hx n
  | false =>
    have hlo : (a : ℝ) ≤ expSum false a x q n := by exact_mod_cast le_expSum_false n
    have hratio : (0 : ℝ) ≤ x / q := by positivity
    have ha : (0 : ℝ) ≤ a := by positivity
    nlinarith

theorem expSum_bounds (hq : 0 < q) {c M : ℕ} (hx : x ≤ c * q) (hM : Real.exp c ≤ M) (neg : Bool)
    (hneg : neg = true → x ≤ q) (n : ℕ) :
    0 ≤ expSum neg a x q n ∧ expSum neg a x q n ≤ a * M ∧ expTerm a x q n ≤ a * M := by
  have hM1 : 1 ≤ M := by
    have hreal : (1 : ℝ) ≤ M := le_trans (Real.one_le_exp (Nat.cast_nonneg c)) hM
    exact_mod_cast hreal
  have haM : a ≤ a * M := Nat.le_mul_of_pos_right a hM1
  cases neg with
  | true =>
    -- the alternating sums stay in `[a - ⌊a x / q⌋, a]`, and the terms below `a`
    have hxq := hneg rfl
    obtain ⟨hlo, hhi⟩ := expSum_true_bounds (a := a) hxq n
    have h1 := expTerm_le (a := a) hxq 1
    have haM' : (a : ℤ) ≤ a * M := by exact_mod_cast haM
    exact ⟨by omega, by linarith, (expTerm_le hxq n).trans haM⟩
  | false =>
    -- the sums start at `a` and hold each of their terms
    have hlo := le_expSum_false (a := a) (x := x) (q := q) n
    have hhi := expSum_false_le_mul (a := a) hq hx hM n
    have ht := expTerm_le_expSum_false (a := a) (x := x) (q := q) n
    refine ⟨by omega, hhi, ?_⟩
    have ht' : (expTerm a x q n : ℤ) ≤ (a * M : ℕ) := by push_cast; linarith
    exact_mod_cast ht'

end Sums

end YuPost.Lib
