import Mathlib.Data.List.GetD
import YuPost.Lib.LittleEndian

/-! Readers that take back what writers put on a byte stream. `RoundTrip ok
write read` says that `read` returns every admissible value `write` wrote,
with the bytes after it untouched; from it two writes that agree on a stream
wrote the same value (`RoundTrip.eq_of_append`), which is how a digest over a
serialization binds each field. Fixed-width little-endian numbers are the base
case. -/

namespace YuPost.Lib

variable {α : Type}

def RoundTrip (ok : α → Prop) (write : α → List UInt8)
    (read : List UInt8 → Option (α × List UInt8)) : Prop :=
  ∀ a rest, ok a → read (write a ++ rest) = some (a, rest)

namespace RoundTrip

variable {ok : α → Prop} {write : α → List UInt8} {read : List UInt8 → Option (α × List UInt8)}

theorem eq_of_append (h : RoundTrip ok write read) {a b : α} (ha : ok a) (hb : ok b)
    {t t' : List UInt8} (heq : write a ++ t = write b ++ t') : a = b ∧ t = t' := by
  have hread := h a t ha
  rw [heq, h b t' hb] at hread
  obtain ⟨hab, htt⟩ := Prod.mk.inj (Option.some.inj hread)
  exact ⟨hab.symm, htt.symm⟩

end RoundTrip

/-- A `k`-byte little-endian number off the front of a stream. -/
def readFixed (k : Nat) (s : List UInt8) : Option (Nat × List UInt8) :=
  if s.length < k then none else some (readLE (s.take k), s.drop k)

theorem roundTrip_writeLE (k : Nat) : RoundTrip (· < 256 ^ k) (writeLE k) (readFixed k) := by
  intro x rest hx
  simp [readFixed, List.take_left', List.drop_left', readLE_writeLE, Nat.mod_eq_of_lt hx]

theorem readFixed_canonical {k x : Nat} {s rest : List UInt8} (h : readFixed k s = some (x, rest)) :
    x < 256 ^ k ∧ s = writeLE k x ++ rest := by
  unfold readFixed at h
  split_ifs at h with hlen
  obtain ⟨rfl, rfl⟩ := Prod.mk.inj (Option.some.inj h)
  have htake : (s.take k).length = k := List.length_take_of_le (by omega)
  have hlt := readLE_lt (s.take k)
  have hw := writeLE_readLE (s.take k)
  rw [htake] at hlt hw
  exact ⟨hlt, by rw [hw, List.take_append_drop]⟩

/-- `k` bytes off the front of a stream. -/
def readBytes (k : Nat) (s : List UInt8) : Option (List UInt8 × List UInt8) :=
  if s.length < k then none else some (s.take k, s.drop k)

theorem readBytes_append {b : List UInt8} {k : Nat} (h : b.length = k) (rest : List UInt8) :
    readBytes k (b ++ rest) = some (b, rest) := by
  subst h
  simp [readBytes]

/-! ### Fixed frames

A record of fixed layout is recognised by its length and the bytes at fixed
positions; these lemmas rebuild it from such checks as its frame around the
field it carries. -/

theorem take_eq_of_getD {d : α} {l pre : List α} (hlen : pre.length ≤ l.length)
    (h : ∀ i < pre.length, l.getD i d = pre.getD i d) : l.take pre.length = pre := by
  apply List.ext_getElem (by simp [hlen])
  intro i hi hi'
  have hget := h i hi'
  rw [List.getD_eq_getElem _ _ (by omega), List.getD_eq_getElem _ _ hi'] at hget
  rw [List.getElem_take, hget]

theorem drop_eq_of_getD {d : α} {l suf : List α} {k : Nat} (hlen : l.length = k + suf.length)
    (h : ∀ i < suf.length, l.getD (k + i) d = suf.getD i d) : l.drop k = suf := by
  apply List.ext_getElem (by simp [hlen])
  intro i hi hi'
  have hget := h i hi'
  rw [List.getD_eq_getElem _ _ (by omega), List.getD_eq_getElem _ _ hi'] at hget
  rw [List.getElem_drop, hget]

theorem eq_frame_of_getD {d : α} {l pre suf : List α} {n : Nat}
    (hlen : l.length = pre.length + n + suf.length)
    (hpre : ∀ i < pre.length, l.getD i d = pre.getD i d)
    (hsuf : ∀ i < suf.length, l.getD (pre.length + n + i) d = suf.getD i d) :
    l = pre ++ (l.drop pre.length).take n ++ suf := by
  have htake := take_eq_of_getD (by omega) hpre
  have hdrop := drop_eq_of_getD hlen hsuf
  calc l = l.take pre.length ++ (l.drop pre.length).take n ++ (l.drop pre.length).drop n := by
        rw [List.append_assoc, List.take_append_drop, List.take_append_drop]
    _ = pre ++ (l.drop pre.length).take n ++ suf := by rw [htake, List.drop_drop, hdrop]

end YuPost.Lib
