import Mathlib.Data.List.Basic

/-! A block of memory as a list of slots: a run of values written from a
position on, as `memcpy`, `std::fill_n` or placement `new` in a loop write
it, `memmove` within the block, and `realloc`. A write that fits keeps the
block's length; a slot reads the value written there, or what it held. The
prefix lemmas say what the first slots hold after the moves of an insertion
and of an erasure. -/

namespace YuPost.Lib

variable {α : Type}

/-- `xs` written over `buf` from `pos` on. -/
def writeAt (buf : List α) (pos : Nat) (xs : List α) : List α :=
  buf.take pos ++ xs ++ buf.drop (pos + xs.length)

/-- `memmove(buf + dst, buf + src, n)`. -/
def moveWithin (buf : List α) (dst src n : Nat) : List α :=
  writeAt buf dst ((buf.drop src).take n)

theorem length_writeAt {buf : List α} {pos : Nat} {xs : List α} (h : pos + xs.length ≤ buf.length) :
    (writeAt buf pos xs).length = buf.length := by
  simp only [writeAt, List.length_append, List.length_take, List.length_drop]
  omega

theorem getElem?_writeAt {buf : List α} {pos : Nat} (h : pos ≤ buf.length) (xs : List α) (i : Nat) :
    (writeAt buf pos xs)[i]? =
      if i < pos then buf[i]? else if i < pos + xs.length then xs[i - pos]? else buf[i]? := by
  have htake : (buf.take pos).length = pos := List.length_take_of_le h
  simp only [writeAt, List.getElem?_append, List.length_append, htake, List.getElem?_take, List.getElem?_drop]
  by_cases h1 : i < pos
  · simp [h1, show i < pos + xs.length by omega]
  · by_cases h2 : i < pos + xs.length
    · simp [h1, h2]
    · simp only [h1, h2, if_false]
      congr 1
      omega

theorem length_moveWithin {buf : List α} {dst src n : Nat} (hdst : dst + n ≤ buf.length) :
    (moveWithin buf dst src n).length = buf.length :=
  length_writeAt (by simp; omega)

theorem getElem?_moveWithin {buf : List α} {dst src n : Nat} (hdst : dst + n ≤ buf.length)
    (hsrc : src + n ≤ buf.length) (i : Nat) :
    (moveWithin buf dst src n)[i]? = if dst ≤ i ∧ i < dst + n then buf[src + (i - dst)]? else buf[i]? := by
  have hlen : ((buf.drop src).take n).length = n := by simp; omega
  rw [moveWithin, getElem?_writeAt (by omega), hlen, List.getElem?_take, List.getElem?_drop]
  by_cases h1 : i < dst
  · simp [h1, show ¬dst ≤ i by omega]
  · by_cases h2 : i < dst + n
    · simp [h1, h2, show dst ≤ i by omega, show i - dst < n by omega]
    · simp [h1, h2]

/-- A block grown or cut to `m` slots, as `realloc` does: the first slots
kept, new ones holding `fresh`. -/
def resizeBlock (buf : List α) (m : Nat) (fresh : α) : List α :=
  buf.take m ++ List.replicate (m - buf.length) fresh

theorem length_resizeBlock (buf : List α) (m : Nat) (fresh : α) : (resizeBlock buf m fresh).length = m := by
  simp only [resizeBlock, List.length_append, List.length_take, List.length_replicate]
  omega

theorem take_resizeBlock {buf : List α} {n m : Nat} (h : n ≤ m) (hn : n ≤ buf.length) (fresh : α) :
    (resizeBlock buf m fresh).take n = buf.take n := by
  rw [resizeBlock, List.take_append_of_le_length (by simp; omega), List.take_take, Nat.min_eq_left h]

theorem take_writeAt_end {buf : List α} {n : Nat} {xs : List α} (h : n + xs.length ≤ buf.length) :
    (writeAt buf n xs).take (n + xs.length) = buf.take n ++ xs := by
  apply List.ext_getElem?
  intro i
  rw [List.getElem?_take, getElem?_writeAt (by omega), List.getElem?_append, List.getElem?_take,
    List.length_take_of_le (by omega)]
  by_cases h1 : i < n
  · simp [h1, show i < n + xs.length by omega]
  · by_cases h2 : i < n + xs.length
    · simp [h1, h2]
    · simp only [h1, h2, if_false]
      exact (List.getElem?_eq_none (by omega)).symm

theorem take_writeAt_zero {buf : List α} {xs : List α} (h : xs.length ≤ buf.length) :
    (writeAt buf 0 xs).take xs.length = xs := by
  have h0 : 0 + xs.length ≤ buf.length := by omega
  simpa using take_writeAt_end h0

theorem take_writeAt_moveWithin_gap {buf : List α} {n p : Nat} {ys : List α} (hp : p ≤ n)
    (hn : n + ys.length ≤ buf.length) :
    (writeAt (moveWithin buf (p + ys.length) p (n - p)) p ys).take (n + ys.length) =
      buf.take p ++ ys ++ (buf.take n).drop p := by
  have hmove : (moveWithin buf (p + ys.length) p (n - p)).length = buf.length := length_moveWithin (by omega)
  apply List.ext_getElem?
  intro i
  rw [List.getElem?_take, getElem?_writeAt (by omega), getElem?_moveWithin (by omega) (by omega),
    List.append_assoc, List.getElem?_append, List.getElem?_append, List.length_take_of_le (by omega),
    List.getElem?_drop, List.getElem?_take]
  by_cases h1 : i < p
  · -- before the gap
    have h2 : ¬p + ys.length ≤ i := by omega
    simp only [h1, h2, show i < n + ys.length by omega, false_and, if_true, if_false]
  · by_cases h2 : i < p + ys.length
    · -- in the gap, the values written
      simp only [h1, h2, show i < n + ys.length by omega, show i - p < ys.length by omega, if_true, if_false]
    · have h3 : ¬i - p < ys.length := by omega
      by_cases h4 : i < n + ys.length
      · -- after it, the slots moved up
        have h5 : p + ys.length ≤ i := by omega
        simp only [h1, h2, h3, h4, h5, show i < p + ys.length + (n - p) by omega, List.getElem?_take,
          show p + (i - p - ys.length) < n by omega, and_self, if_true, if_false, Nat.sub_add_eq]
      · simp only [h1, h3, h4, List.getElem?_take, show ¬p + (i - p - ys.length) < n by omega, if_false]

theorem take_moveWithin_close {buf : List α} {n f l : Nat} (hfl : f ≤ l) (hl : l ≤ n)
    (hn : n ≤ buf.length) :
    (moveWithin buf f l (n - l)).take (n - (l - f)) = buf.take f ++ (buf.take n).drop l := by
  apply List.ext_getElem?
  intro i
  rw [List.getElem?_take, getElem?_moveWithin (by omega) (by omega), List.getElem?_append,
    List.length_take_of_le (by omega), List.getElem?_drop, List.getElem?_take, List.getElem?_take]
  by_cases h1 : i < f
  · -- before the range closed
    simp only [h1, show i < n - (l - f) by omega, show ¬f ≤ i by omega, false_and, if_true, if_false]
  · by_cases h2 : i < n - (l - f)
    · -- the slots moved down over it
      simp only [h1, h2, show f ≤ i by omega, show i < f + (n - l) by omega, show l + (i - f) < n by omega,
        and_self, if_true, if_false]
    · simp only [h1, h2, show ¬l + (i - f) < n by omega, if_false]

end YuPost.Lib
