import Mathlib.Algebra.Order.Group.Nat
import YuPost.Lib.Codec

/-! The variable-length integers of `VARINT`: base 128, most significant group
first, the continuation bit `0x80` on every byte but the last, and one
subtracted from the value above each group, so that every number has exactly
one encoding. The reader works in an unsigned type whose largest value is
`max` and fails where the stream ends or the value would not fit. -/

namespace YuPost.Lib

/-- The groups the writer stores, lowest first: the low seven bits of `n`, then
of `n / 128 - 1`, and so on, each after the first with the continuation bit.
`fuel` bounds the loop, `len` counts the groups stored. -/
def varIntGroups : (fuel n len : Nat) → List UInt8
  | 0, _, _ => []
  | fuel + 1, n, len =>
    let byte := UInt8.ofNat (n % 128) ||| (if len = 0 then 0 else 0x80)
    if n ≤ 0x7F then [byte] else byte :: varIntGroups fuel (n / 128 - 1) (len + 1)

theorem varIntGroups_succ (fuel n len : Nat) :
    varIntGroups (fuel + 1) n len =
      let byte := UInt8.ofNat (n % 128) ||| (if len = 0 then 0 else 0x80)
      if n ≤ 0x7F then [byte] else byte :: varIntGroups fuel (n / 128 - 1) (len + 1) := rfl

/-- `WriteVarInt`: the groups, highest first. -/
def writeVarInt (n : Nat) : List UInt8 := (varIntGroups (n + 1) n 0).reverse

/-- The loop of `ReadVarInt`, the value read so far first. -/
def readVarIntLoop (max : Nat) : Nat → List UInt8 → Option (Nat × List UInt8)
  | _, [] => none
  | n, chData :: rest =>
    if n > max >>> 7 then none
    else
      let n := n <<< 7 ||| (chData &&& 0x7F).toNat
      if chData &&& 0x80 ≠ 0 then
        if n = max then none else readVarIntLoop max (n + 1) rest
      else some (n, rest)

theorem readVarIntLoop_cons (max n : Nat) (chData : UInt8) (rest : List UInt8) :
    readVarIntLoop max n (chData :: rest) =
      if n > max >>> 7 then none
      else
        let n := n <<< 7 ||| (chData &&& 0x7F).toNat
        if chData &&& 0x80 ≠ 0 then
          if n = max then none else readVarIntLoop max (n + 1) rest
        else some (n, rest) := rfl

/-- `ReadVarInt` into an unsigned type of `bits` bits. -/
def readVarInt (bits : Nat) (s : List UInt8) : Option (Nat × List UInt8) :=
  readVarIntLoop (2 ^ bits - 1) 0 s

/-- The loop of `GetSizeOfVarInt`: one more byte for each group the writer
stores. -/
def getSizeOfVarIntLoop : (fuel n : Nat) → Nat
  | 0, _ => 0
  | fuel + 1, n => if n ≤ 0x7F then 1 else 1 + getSizeOfVarIntLoop fuel (n / 128 - 1)

theorem getSizeOfVarIntLoop_succ (fuel n : Nat) :
    getSizeOfVarIntLoop (fuel + 1) n = if n ≤ 0x7F then 1 else 1 + getSizeOfVarIntLoop fuel (n / 128 - 1) := rfl

/-- `GetSizeOfVarInt`. -/
def getSizeOfVarInt (n : Nat) : Nat := getSizeOfVarIntLoop (n + 1) n

/-- How a read off a stream fails: the stream ends under `ser_readdata8` (each
stream type words that failure its own way), or the reader throws
`std::ios_base::failure` with its own message. -/
inductive ReadFailure
  | endOfData
  | failure (what : String)
deriving DecidableEq, Repr

/-- The loop of `ReadVarInt` with its failures told apart. -/
def readVarIntLoopE (max : Nat) : Nat → List UInt8 → Except ReadFailure (Nat × List UInt8)
  | _, [] => .error .endOfData
  | n, chData :: rest =>
    if n > max >>> 7 then .error (.failure "ReadVarInt(): size too large")
    else
      let n := n <<< 7 ||| (chData &&& 0x7F).toNat
      if chData &&& 0x80 ≠ 0 then
        if n = max then .error (.failure "ReadVarInt(): size too large") else readVarIntLoopE max (n + 1) rest
      else .ok (n, rest)

theorem readVarIntLoopE_cons (max n : Nat) (chData : UInt8) (rest : List UInt8) :
    readVarIntLoopE max n (chData :: rest) =
      if n > max >>> 7 then .error (.failure "ReadVarInt(): size too large")
      else
        let n := n <<< 7 ||| (chData &&& 0x7F).toNat
        if chData &&& 0x80 ≠ 0 then
          if n = max then .error (.failure "ReadVarInt(): size too large") else readVarIntLoopE max (n + 1) rest
        else .ok (n, rest) := rfl

/-- `ReadVarInt` into an unsigned type of `bits` bits, with its failures told apart. -/
def readVarIntE (bits : Nat) (s : List UInt8) : Except ReadFailure (Nat × List UInt8) :=
  readVarIntLoopE (2 ^ bits - 1) 0 s

theorem readVarIntLoop_eq_toOption (max : Nat) (s : List UInt8) :
    ∀ n, readVarIntLoop max n s = (readVarIntLoopE max n s).toOption := by
  induction s with
  | nil => intro n; rfl
  | cons chData rest ih =>
    intro n
    simp only [readVarIntLoop_cons, readVarIntLoopE_cons]
    split_ifs <;> simp [ih, Except.toOption]

theorem readVarIntE_of_readVarInt {bits : Nat} {s : List UInt8} {r : Nat × List UInt8}
    (h : readVarInt bits s = some r) : readVarIntE bits s = .ok r := by
  rw [readVarInt, readVarIntLoop_eq_toOption] at h
  unfold readVarIntE
  cases hE : readVarIntLoopE (2 ^ bits - 1) 0 s with
  | error e => simp [hE, Except.toOption] at h
  | ok r' => simp_all [Except.toOption]

theorem readVarInt_of_readVarIntE {bits : Nat} {s : List UInt8} {r : Nat × List UInt8}
    (h : readVarIntE bits s = .ok r) : readVarInt bits s = some r := by
  rw [readVarInt, readVarIntLoop_eq_toOption]
  unfold readVarIntE at h
  simp [h, Except.toOption]

theorem readVarIntLoopE_failure (max : Nat) (s : List UInt8) :
    ∀ n e, readVarIntLoopE max n s = .error e →
      e = .endOfData ∨ e = .failure "ReadVarInt(): size too large" := by
  induction s with
  | nil =>
    intro n e h
    cases h
    exact .inl rfl
  | cons chData rest ih =>
    intro n e h
    simp only [readVarIntLoopE_cons] at h
    split_ifs at h
    · cases h
      exact .inr rfl
    · cases h
      exact .inr rfl
    · exact ih _ e h

theorem low_bits_continued : ∀ g, g < 128 →
    ((UInt8.ofNat g ||| 0x80) &&& 0x7F).toNat = g ∧ (UInt8.ofNat g ||| 0x80) &&& 0x80 ≠ 0 := by
  decide

theorem low_bits_last : ∀ g, g < 128 → (UInt8.ofNat g &&& 0x7F).toNat = g ∧ UInt8.ofNat g &&& 0x80 = 0 := by
  decide

theorem shiftLeft_or_group {a g : Nat} (hg : g < 128) : a <<< 7 ||| g = a * 128 + g := by
  rw [← Nat.shiftLeft_add_eq_or_of_lt (by simpa using hg), Nat.shiftLeft_eq]

theorem readVarIntLoop_continued {max a g : Nat} (hg : g < 128) (ha : a ≤ max >>> 7) (hne : a * 128 + g ≠ max)
    (rest : List UInt8) :
    readVarIntLoop max a ((UInt8.ofNat g ||| 0x80) :: rest) = readVarIntLoop max (a * 128 + g + 1) rest := by
  obtain ⟨hlow, hcont⟩ := low_bits_continued g hg
  rw [readVarIntLoop_cons, if_neg (Nat.not_lt.mpr ha)]
  simp only [hlow, shiftLeft_or_group hg, if_pos hcont, if_neg hne]

theorem readVarIntLoop_last {max a g : Nat} (hg : g < 128) (ha : a ≤ max >>> 7) (rest : List UInt8) :
    readVarIntLoop max a (UInt8.ofNat g :: rest) = some (a * 128 + g, rest) := by
  obtain ⟨hlow, hlast⟩ := low_bits_last g hg
  rw [readVarIntLoop_cons, if_neg (Nat.not_lt.mpr ha)]
  simp only [hlow, shiftLeft_or_group hg, hlast, ne_eq, not_true_eq_false, if_false]

theorem div_le_shiftRight {m max : Nat} (h : m ≤ max) : m / 128 ≤ max >>> 7 := by
  rw [Nat.shiftRight_eq_div_pow]
  exact Nat.div_le_div_right h

theorem readVarIntLoop_groups {max : Nat} (m : Nat) :
    ∀ {fuel len : Nat}, m < fuel → 1 ≤ len → m < max → ∀ rest : List UInt8,
      readVarIntLoop max 0 ((varIntGroups fuel m len).reverse ++ rest) = readVarIntLoop max (m + 1) rest := by
  induction m using Nat.strongRecOn with
  | ind m ih =>
    intro fuel len hfuel hlen hmax rest
    obtain ⟨fuel, rfl⟩ : ∃ f, fuel = f + 1 := ⟨fuel - 1, by omega⟩
    have hflag : (if len = 0 then (0 : UInt8) else 0x80) = 0x80 := if_neg (by omega)
    rw [varIntGroups_succ]
    simp only [hflag]
    by_cases hsmall : m ≤ 0x7F
    · rw [if_pos hsmall, List.reverse_singleton, List.singleton_append,
        readVarIntLoop_continued (by omega) (Nat.zero_le _) (by omega)]
      congr 1
      omega
    · -- the higher groups are those of `m / 128 - 1`, read back as `m / 128`
      rw [if_neg hsmall, List.reverse_cons, List.append_assoc, List.singleton_append,
        ih (m / 128 - 1) (by omega) (by omega) (by omega) (by omega),
        show m / 128 - 1 + 1 = m / 128 by omega,
        readVarIntLoop_continued (by omega) (div_le_shiftRight (by omega)) (by omega)]
      congr 1
      omega

theorem roundTrip_writeVarInt (bits : Nat) : RoundTrip (· < 2 ^ bits) writeVarInt (readVarInt bits) := by
  intro n rest hn
  have hmax : n ≤ 2 ^ bits - 1 := by omega
  unfold readVarInt writeVarInt
  rw [varIntGroups_succ]
  -- the last byte, written first, has no continuation bit
  simp only [↓reduceIte, UInt8.or_zero]
  by_cases hsmall : n ≤ 0x7F
  · rw [if_pos hsmall, List.reverse_singleton, List.singleton_append,
      readVarIntLoop_last (by omega) (Nat.zero_le _), Nat.zero_mul, Nat.zero_add, Nat.mod_eq_of_lt (by omega)]
  · rw [if_neg hsmall, List.reverse_cons, List.append_assoc, List.singleton_append,
      readVarIntLoop_groups (n / 128 - 1) (by omega) (by omega) (by omega),
      show n / 128 - 1 + 1 = n / 128 by omega, readVarIntLoop_last (by omega) (div_le_shiftRight hmax)]
    congr 2
    omega

theorem writeVarInt_of_lt {n : Nat} (h : n < 128) : writeVarInt n = [UInt8.ofNat n] := by
  unfold writeVarInt
  rw [varIntGroups_succ, if_pos (by omega), Nat.mod_eq_of_lt h]
  simp

theorem length_varIntGroups (fuel n len : Nat) : (varIntGroups fuel n len).length = getSizeOfVarIntLoop fuel n := by
  induction fuel generalizing n len with
  | zero => rfl
  | succ fuel ih =>
    rw [varIntGroups_succ, getSizeOfVarIntLoop_succ]
    split_ifs <;> simp [ih] <;> omega

theorem length_writeVarInt (n : Nat) : (writeVarInt n).length = getSizeOfVarInt n := by
  simp [writeVarInt, getSizeOfVarInt, length_varIntGroups]

theorem varIntGroups_congr {f m len : Nat} (f' len' : Nat) (hf : m < f) (hf' : m < f') (hl : 1 ≤ len)
    (hl' : 1 ≤ len') : varIntGroups f m len = varIntGroups f' m len' := by
  induction f generalizing f' m len len' with
  | zero => omega
  | succ f ih =>
    obtain ⟨f', rfl⟩ : ∃ g, f' = g + 1 := ⟨f' - 1, by omega⟩
    have hflag : ∀ l, 1 ≤ l → (if l = 0 then (0 : UInt8) else 0x80) = 0x80 := fun l hl => if_neg (by omega)
    simp only [varIntGroups_succ, hflag len hl, hflag len' hl']
    split_ifs with hsmall
    · rfl
    · rw [ih f' (len' + 1) (by omega) (by omega) (by omega) (by omega)]

theorem varIntGroups_high {f a g len : Nat} (hg : g < 128) (ha : 1 ≤ a) (hf : a * 128 + g < f) :
    varIntGroups f (a * 128 + g) len =
      (UInt8.ofNat g ||| (if len = 0 then 0 else 0x80)) :: varIntGroups (f - 1) (a - 1) (len + 1) := by
  obtain ⟨f, rfl⟩ : ∃ k, f = k + 1 := ⟨f - 1, by omega⟩
  rw [varIntGroups_succ, if_neg (by omega), show (a * 128 + g) % 128 = g by omega,
    show (a * 128 + g) / 128 - 1 = a - 1 by omega, Nat.add_sub_cancel]

theorem varIntGroups_snoc {a g : Nat} (hg : g < 128) :
    (varIntGroups (a * 128 + g + 1) (a * 128 + g) 1).reverse =
      (if a = 0 then [] else (varIntGroups a (a - 1) 1).reverse) ++ [UInt8.ofNat g ||| 0x80] := by
  by_cases ha : a = 0
  · subst ha
    simp [varIntGroups_succ, show g ≤ 0x7F by omega, Nat.mod_eq_of_lt hg]
  · rw [if_neg ha, varIntGroups_high hg (by omega) (by omega), List.reverse_cons,
      varIntGroups_congr a 1 (by omega) (by omega) (by omega) (by omega)]
    rfl

theorem writeVarInt_snoc {a g : Nat} (hg : g < 128) :
    writeVarInt (a * 128 + g) = (if a = 0 then [] else (varIntGroups a (a - 1) 1).reverse) ++ [UInt8.ofNat g] := by
  by_cases ha : a = 0
  · subst ha
    simp [writeVarInt_of_lt hg]
  · rw [if_neg ha, writeVarInt, varIntGroups_high hg (by omega) (by omega), List.reverse_cons,
      varIntGroups_congr a 1 (by omega) (by omega) (by omega) (by omega)]
    simp

theorem forall_byte {P : UInt8 → Prop} (h : ∀ n, n < 256 → P (UInt8.ofNat n)) (c : UInt8) : P c := by
  simpa using h c.toNat c.toNat_lt

theorem low_bits_lt (c : UInt8) : (c &&& 0x7F).toNat < 128 := by
  rw [UInt8.toNat_and]
  exact Nat.lt_of_le_of_lt Nat.and_le_right (by decide)

-- the 256 cases are evaluated by the elaborator, one level of recursion each
set_option maxRecDepth 2000 in
theorem byte_of_continued (c : UInt8) (h : c &&& 0x80 ≠ 0) : c = UInt8.ofNat (c &&& 0x7F).toNat ||| 0x80 :=
  forall_byte (P := fun c => c &&& 0x80 ≠ 0 → c = UInt8.ofNat (c &&& 0x7F).toNat ||| 0x80) (by decide) c h

set_option maxRecDepth 2000 in
theorem byte_of_last (c : UInt8) (h : c &&& 0x80 = 0) : c = UInt8.ofNat (c &&& 0x7F).toNat :=
  forall_byte (P := fun c => c &&& 0x80 = 0 → c = UInt8.ofNat (c &&& 0x7F).toNat) (by decide) c h

/-- What the loop reads on from the value `a` completes an encoding: that of
the number it returns, after the continuation groups of `a - 1` where `a` is
not 0. By induction on the stream. The bound on `max` holds for every unsigned
type of at least seven bits: the guard before each byte keeps the value in
range. -/
theorem readVarIntLoop_canonical {max : Nat} (hmax : (max >>> 7) * 128 + 127 ≤ max) (s : List UInt8) :
    ∀ a n rest, readVarIntLoop max a s = some (n, rest) →
      n ≤ max ∧ ∃ p, s = p ++ rest ∧ (if a = 0 then [] else (varIntGroups a (a - 1) 1).reverse) ++ p = writeVarInt n := by
  induction s with
  | nil =>
    intro a n rest h
    cases h
  | cons c s ih =>
    intro a n rest h
    have hg := low_bits_lt c
    simp only [readVarIntLoop_cons, shiftLeft_or_group hg] at h
    split_ifs at h with hbig hcont htop
    · -- a continuation byte: the read goes on from `a * 128 + g + 1`
      obtain ⟨hn, p, rfl, hp⟩ := ih _ n rest h
      refine ⟨hn, c :: p, rfl, ?_⟩
      rw [if_neg (by omega), Nat.add_sub_cancel, varIntGroups_snoc hg, ← byte_of_continued c hcont] at hp
      simpa using hp
    · -- the last byte
      obtain ⟨rfl, rfl⟩ := Prod.mk.inj (Option.some.inj h)
      refine ⟨by omega, [c], rfl, ?_⟩
      rw [writeVarInt_snoc hg, ← byte_of_last c (by simpa using hcont)]

theorem shiftRight_mul_add_le {bits : Nat} (h : 7 ≤ bits) : ((2 ^ bits - 1) >>> 7) * 128 + 127 ≤ 2 ^ bits - 1 := by
  have hpow : 2 ^ bits = 2 ^ (bits - 7) * 128 := by
    rw [show (128 : Nat) = 2 ^ 7 from rfl, ← Nat.pow_add, Nat.sub_add_cancel h]
  have hq : 1 ≤ 2 ^ (bits - 7) := Nat.one_le_two_pow
  rw [Nat.shiftRight_eq_div_pow, hpow, show (2 : Nat) ^ 7 = 128 from rfl]
  omega

theorem readVarInt_canonical {bits : Nat} (hbits : 7 ≤ bits) {s rest : List UInt8} {n : Nat}
    (h : readVarInt bits s = some (n, rest)) : n < 2 ^ bits ∧ s = writeVarInt n ++ rest := by
  obtain ⟨hn, p, rfl, hp⟩ := readVarIntLoop_canonical (shiftRight_mul_add_le hbits) s 0 n rest h
  have hpos : 0 < 2 ^ bits := Nat.two_pow_pos bits
  rw [if_pos rfl, List.nil_append] at hp
  exact ⟨by omega, by rw [hp]⟩

end YuPost.Lib
