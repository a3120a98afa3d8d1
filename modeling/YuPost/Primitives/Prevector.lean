import Mathlib
import YuPost.Lib.Slots

/-! `prevector<N, T>` of `prevector.h`: a vector that keeps up to `N`
elements in a buffer inline and more in a block on the heap, the two sharing
one union. Which member is live is encoded in `_size`: the size itself
inline, the size plus `N + 1` on the heap. A slot is `Option T`, `none` where
no element was ever constructed; a slot past the end may hold what was
destroyed or moved there, which the model keeps. Iterators are indices,
`Size` (`uint32_t`) is `Nat`, and `T` is trivially copyable, as
`memmove` requires. -/

namespace YuPost.Primitives

open YuPost.Lib

/-- The member of `_union` last written: the `N` slots inline, or a heap block
with its capacity. The union itself has no tag: `is_direct()` reads off
`_size` which member to use. -/
inductive DirectOrIndirect (T : Type)
  | direct (slots : List (Option T))
  | indirect (slots : List (Option T)) (capacity : Nat)

namespace DirectOrIndirect

variable {T : Type}

/-- `_union.direct` as slots; over a live heap pointer it holds no elements. -/
def directSlots : DirectOrIndirect T → List (Option T)
  | direct slots => slots
  | indirect _ _ => []

/-- The block `_union.indirect` points to. -/
def indirectSlots : DirectOrIndirect T → List (Option T)
  | direct _ => []
  | indirect slots _ => slots

/-- `_union.capacity`. -/
def capacity : DirectOrIndirect T → Nat
  | direct _ => 0
  | indirect _ capacity => capacity

end DirectOrIndirect

structure prevector (N : Nat) (T : Type) where
  _union : DirectOrIndirect T
  _size : Nat

namespace prevector

variable {N : Nat} {T : Type}

def isDirect (v : prevector N T) : Bool := decide (v._size ≤ N)

def size (v : prevector N T) : Nat := if v.isDirect then v._size else v._size - N - 1

def capacity (v : prevector N T) : Nat := if v.isDirect then N else v._union.capacity

/-- The slots `item_ptr` points into. -/
def items (v : prevector N T) : List (Option T) :=
  if v.isDirect then v._union.directSlots else v._union.indirectSlots

/-- The union with the slots `item_ptr` points into written. -/
def setItems (v : prevector N T) (slots : List (Option T)) : DirectOrIndirect T :=
  if v.isDirect then .direct slots else .indirect slots v._union.capacity

/-- The elements, `[begin(), end())`. -/
def toList (v : prevector N T) : List (Option T) := v.items.take v.size

def changeCapacity (v : prevector N T) (new_capacity : Nat) : prevector N T :=
  if new_capacity ≤ N then
    if !v.isDirect then
      -- back inline: the elements copied into the union and the heap block freed
      ⟨.direct (writeAt (List.replicate N none) 0 (v._union.indirectSlots.take v.size)), v._size - (N + 1)⟩
    else v
  else if !v.isDirect then
    ⟨.indirect (resizeBlock v._union.indirectSlots new_capacity none) new_capacity, v._size⟩
  else
    ⟨.indirect (writeAt (List.replicate new_capacity none) 0 (v._union.directSlots.take v.size)) new_capacity,
      v._size + (N + 1)⟩

/-- `erase(first, last)`: `_size` lowered by the number of elements
destroyed and the slots after `last` moved down, in the member live before;
the capacity is kept. -/
def erase (v : prevector N T) (first last : Nat) : prevector N T :=
  ⟨v.setItems (moveWithin v.items first last (v.size - last)), v._size - (last - first)⟩

/-- `erase(pos)`. -/
def eraseOne (v : prevector N T) (pos : Nat) : prevector N T := v.erase pos (pos + 1)

/-- `resize`: new elements value-initialised, `T{}`. -/
def resize [Inhabited T] (v : prevector N T) (new_size : Nat) : prevector N T :=
  let cur_size := v.size
  if cur_size = new_size then v
  else if cur_size > new_size then v.erase new_size cur_size
  else
    let v := if new_size > v.capacity then v.changeCapacity new_size else v
    let increase := new_size - cur_size
    ⟨v.setItems (writeAt v.items cur_size (List.replicate increase (some default))), v._size + increase⟩

def reserve (v : prevector N T) (new_capacity : Nat) : prevector N T :=
  if new_capacity > v.capacity then v.changeCapacity new_capacity else v

def shrinkToFit (v : prevector N T) : prevector N T := v.changeCapacity v.size

def clear [Inhabited T] (v : prevector N T) : prevector N T := v.resize 0

/-- The body the two `assign`s share, over the slots they fill. -/
def assignSlots [Inhabited T] (v : prevector N T) (xs : List (Option T)) : prevector N T :=
  let n := xs.length
  let v := v.clear
  let v := if v.capacity < n then v.changeCapacity n else v
  let v : prevector N T := ⟨v._union, v._size + n⟩
  ⟨v.setItems (writeAt v.items 0 xs), v._size⟩

/-- `assign(n, val)`. -/
def assign [Inhabited T] (v : prevector N T) (n : Nat) (val : T) : prevector N T :=
  v.assignSlots (List.replicate n (some val))

/-- `assign(first, last)`. -/
def assignRange [Inhabited T] (v : prevector N T) (xs : List T) : prevector N T := v.assignSlots (xs.map some)

/-- A size that `size_type`, a `uint32_t`, holds with room to grow by half. -/
def Fits (n : Nat) : Prop := n + (n >>> 1) < 2 ^ 32

instance (n : Nat) : Decidable (Fits n) := inferInstanceAs (Decidable (n + (n >>> 1) < 2 ^ 32))

/-- The growth of `insert` and `emplace_back` when full: half as much again,
in `size_type` arithmetic. -/
def grow (v : prevector N T) (new_size : Nat) : prevector N T :=
  if v.capacity < new_size then v.changeCapacity ((new_size + (new_size >>> 1)) % 2 ^ 32) else v

/-- The body of `insert(pos, value)` and `insert(pos, first, last)`: a gap
opened at `pos` by a `memmove`, `_size` raised, and the new elements
constructed in the gap, at the pointer taken before. -/
def insertSlots (v : prevector N T) (p : Nat) (xs : List (Option T)) : prevector N T :=
  let count := xs.length
  let v := v.grow (v.size + count)
  ⟨v.setItems (writeAt (moveWithin v.items (p + count) p (v.size - p)) p xs), v._size + count⟩

/-- `insert(pos, value)`. -/
def insert (v : prevector N T) (p : Nat) (value : T) : prevector N T := v.insertSlots p [some value]

/-- `insert(pos, first, last)`. -/
def insertRange (v : prevector N T) (p : Nat) (xs : List T) : prevector N T := v.insertSlots p (xs.map some)

/-- `insert(pos, count, value)`: unlike the other two it fills the gap through
`item_ptr(p)` taken again after `_size` is raised. -/
def insertCount (v : prevector N T) (p count : Nat) (value : T) : prevector N T :=
  let v := v.grow (v.size + count)
  let v : prevector N T := ⟨v.setItems (moveWithin v.items (p + count) p (v.size - p)), v._size + count⟩
  ⟨v.setItems (writeAt v.items p (List.replicate count (some value))), v._size⟩

/-- `resize_uninitialized`: the size changed with no element constructed. -/
def resizeUninitialized (v : prevector N T) (new_size : Nat) : prevector N T :=
  if v.capacity < new_size then
    let v := v.changeCapacity new_size
    ⟨v._union, v._size + (new_size - v.size)⟩
  else if new_size < v.size then v.erase new_size v.size
  else ⟨v._union, v._size + (new_size - v.size)⟩

def emplaceBack (v : prevector N T) (value : T) : prevector N T :=
  let v := v.grow (v.size + 1)
  ⟨v.setItems (writeAt v.items v.size [some value]), v._size + 1⟩

def pushBack (v : prevector N T) (value : T) : prevector N T := v.emplaceBack value

def popBack (v : prevector N T) : prevector N T := v.erase (v.size - 1) v.size

/-- `operator[]`, read. -/
def get (v : prevector N T) (pos : Nat) : Option T := (v.items[pos]?).join

/-- `operator[]`, written: `v[pos] = value`. -/
def set (v : prevector N T) (pos : Nat) (value : T) : prevector N T :=
  ⟨v.setItems (v.items.set pos (some value)), v._size⟩

def front (v : prevector N T) : Option T := v.get 0

def back (v : prevector N T) : Option T := v.get (v.size - 1)

/-- `prevector()`: the union zero-initialised, no element constructed. -/
def empty : prevector N T := ⟨.direct (List.replicate N none), 0⟩

/-- The body of the constructors from a count and a value, from a range, and
by copy: `change_capacity(n); _size += n; fill(item_ptr(0), ...)`. -/
def construct (xs : List (Option T)) : prevector N T :=
  let v := (empty : prevector N T).changeCapacity xs.length
  let v : prevector N T := ⟨v._union, v._size + xs.length⟩
  ⟨v.setItems (writeAt v.items 0 xs), v._size⟩

/-- `prevector(n, val)`. -/
def ofReplicate (n : Nat) (val : T) : prevector N T := construct (List.replicate n (some val))

/-- `prevector(first, last)`. -/
def ofRange (xs : List T) : prevector N T := construct (xs.map some)

/-- The copy constructor. -/
def copy (other : prevector N T) : prevector N T := construct other.toList

/-- `prevector(n)`. -/
def ofSize [Inhabited T] (n : Nat) : prevector N T := empty.resize n

/-- `swap`: the unions and the sizes exchanged. -/
def swap (v other : prevector N T) : prevector N T × prevector N T :=
  (⟨other._union, other._size⟩, ⟨v._union, v._size⟩)

/-- `allocated_memory`, with `sizeof(T)`. -/
def allocatedMemory (sizeofT : Nat) (v : prevector N T) : Nat :=
  if v.isDirect then 0 else sizeofT * v._union.capacity

/-- `is_direct()` picks the live member; inline, the buffer has its `N`
slots; on the heap, `_size` is the size plus `N + 1` and the block has its
capacity of slots, more than `N` and at least the size. -/
def Inv : prevector N T → Prop
  | ⟨.direct slots, _size⟩ => _size ≤ N ∧ slots.length = N
  | ⟨.indirect slots capacity, _size⟩ =>
    N < _size ∧ N < capacity ∧ _size - (N + 1) ≤ capacity ∧ slots.length = capacity

section Inv

variable {s slots : List (Option T)} {z c : Nat}

/-! What `is_direct()` reads off `_size`, member by member. -/

theorem isDirect_direct (h : z ≤ N) : isDirect (⟨.direct s, z⟩ : prevector N T) = true := by simp [isDirect, h]

theorem isDirect_indirect (h : N < z) : isDirect (⟨.indirect s c, z⟩ : prevector N T) = false := by
  simp [isDirect, Nat.not_le.mpr h]

theorem size_direct (h : z ≤ N) : size (⟨.direct s, z⟩ : prevector N T) = z := by simp [size, isDirect, h]

theorem capacity_direct (h : z ≤ N) : capacity (⟨.direct s, z⟩ : prevector N T) = N := by
  simp [capacity, isDirect, h]

theorem items_direct (h : z ≤ N) : items (⟨.direct s, z⟩ : prevector N T) = s := by
  simp [items, isDirect, h, DirectOrIndirect.directSlots]

theorem setItems_direct (h : z ≤ N) : setItems (⟨.direct s, z⟩ : prevector N T) slots = .direct slots := by
  simp [setItems, isDirect, h]

theorem size_indirect (h : N < z) : size (⟨.indirect s c, z⟩ : prevector N T) = z - N - 1 := by
  simp [size, isDirect, Nat.not_le.mpr h]

theorem capacity_indirect (h : N < z) : capacity (⟨.indirect s c, z⟩ : prevector N T) = c := by
  simp [capacity, isDirect, Nat.not_le.mpr h, DirectOrIndirect.capacity]

theorem items_indirect (h : N < z) : items (⟨.indirect s c, z⟩ : prevector N T) = s := by
  simp [items, isDirect, Nat.not_le.mpr h, DirectOrIndirect.indirectSlots]

theorem setItems_indirect (h : N < z) :
    setItems (⟨.indirect s c, z⟩ : prevector N T) slots = .indirect slots c := by
  simp [setItems, isDirect, Nat.not_le.mpr h, DirectOrIndirect.capacity]

variable {v : prevector N T}

theorem Inv.length_items (hv : v.Inv) : v.items.length = v.capacity := by
  obtain ⟨_ | _, z⟩ := v
  · obtain ⟨hz, hs⟩ := hv
    rw [items_direct hz, capacity_direct hz, hs]
  · obtain ⟨hz, -, -, hs⟩ := hv
    rw [items_indirect hz, capacity_indirect hz, hs]

theorem Inv.size_le_capacity (hv : v.Inv) : v.size ≤ v.capacity := by
  obtain ⟨_ | _, z⟩ := v
  · obtain ⟨hz, -⟩ := hv
    rw [size_direct hz, capacity_direct hz]
    exact hz
  · obtain ⟨hz, -, hc, -⟩ := hv
    rw [size_indirect hz, capacity_indirect hz]
    omega

theorem Inv.le_capacity (hv : v.Inv) : N ≤ v.capacity := by
  obtain ⟨_ | _, z⟩ := v
  · obtain ⟨hz, -⟩ := hv
    exact Nat.le_of_eq (capacity_direct hz).symm
  · obtain ⟨hz, hN, -, -⟩ := hv
    rw [capacity_indirect hz]
    exact Nat.le_of_lt hN

theorem Inv.setItems_items (hv : v.Inv) : v.setItems v.items = v._union := by
  obtain ⟨_ | _, z⟩ := v
  · obtain ⟨hz, -⟩ := hv
    rw [items_direct hz, setItems_direct hz]
  · obtain ⟨hz, -, -, -⟩ := hv
    rw [items_indirect hz, setItems_indirect hz]

theorem Inv.update_add (hv : v.Inv) (hlen : slots.length = v.capacity) {k : Nat}
    (hk : v.size + k ≤ v.capacity) :
    Inv (⟨v.setItems slots, v._size + k⟩ : prevector N T) ∧
      size (⟨v.setItems slots, v._size + k⟩ : prevector N T) = v.size + k ∧
      capacity (⟨v.setItems slots, v._size + k⟩ : prevector N T) = v.capacity ∧
      items (⟨v.setItems slots, v._size + k⟩ : prevector N T) = slots := by
  obtain ⟨_ | ⟨_, c⟩, z⟩ := v
  all_goals dsimp only
  · obtain ⟨hz, -⟩ := hv
    rw [size_direct hz, capacity_direct hz] at hk
    rw [capacity_direct hz] at hlen ⊢
    have hz' : z + k ≤ N := hk
    rw [setItems_direct hz, size_direct hz, size_direct hz', capacity_direct hz', items_direct hz']
    exact ⟨⟨hz', hlen⟩, rfl, rfl, rfl⟩
  · obtain ⟨hz, hN, -, -⟩ := hv
    rw [size_indirect hz, capacity_indirect hz] at hk
    rw [capacity_indirect hz] at hlen ⊢
    have hz' : N < z + k := by omega
    rw [setItems_indirect hz, size_indirect hz, size_indirect hz', capacity_indirect hz', items_indirect hz']
    exact ⟨⟨hz', hN, by omega, hlen⟩, by omega, rfl, rfl⟩

theorem Inv.length_toList (hv : v.Inv) : v.toList.length = v.size := by
  rw [toList, List.length_take, hv.length_items, Nat.min_eq_left hv.size_le_capacity]

theorem Inv.isDirect_eq (hv : v.Inv) : v.isDirect = decide (v.capacity ≤ N) := by
  obtain ⟨_ | ⟨_, c⟩, z⟩ := v
  · obtain ⟨hz, -⟩ := hv
    rw [isDirect_direct hz, capacity_direct hz, decide_eq_true (Nat.le_refl N)]
  · obtain ⟨hz, hN, -, -⟩ := hv
    rw [isDirect_indirect hz, capacity_indirect hz, decide_eq_false (Nat.not_le.mpr hN)]

theorem Inv.setItems_add (hv : v.Inv) (slots : List (Option T)) (k : Nat) (hk : v.size + k ≤ v.capacity)
    (slots' : List (Option T)) :
    setItems (⟨v.setItems slots, v._size + k⟩ : prevector N T) slots' = v.setItems slots' := by
  obtain ⟨_ | ⟨_, c⟩, z⟩ := v
  all_goals dsimp only
  · obtain ⟨hz, -⟩ := hv
    rw [size_direct hz, capacity_direct hz] at hk
    rw [setItems_direct hz, setItems_direct (show z + k ≤ N from hk), setItems_direct hz]
  · obtain ⟨hz, -, -, -⟩ := hv
    rw [setItems_indirect hz, setItems_indirect (show N < z + k by omega), setItems_indirect hz]

theorem Inv.update_sub (hv : v.Inv) (hlen : slots.length = v.capacity) {k : Nat} (hk : k ≤ v.size) :
    Inv (⟨v.setItems slots, v._size - k⟩ : prevector N T) ∧
      size (⟨v.setItems slots, v._size - k⟩ : prevector N T) = v.size - k ∧
      capacity (⟨v.setItems slots, v._size - k⟩ : prevector N T) = v.capacity ∧
      items (⟨v.setItems slots, v._size - k⟩ : prevector N T) = slots := by
  obtain ⟨_ | ⟨_, c⟩, z⟩ := v
  all_goals dsimp only
  · obtain ⟨hz, -⟩ := hv
    rw [size_direct hz] at hk
    rw [capacity_direct hz] at hlen ⊢
    have hz' : z - k ≤ N := by omega
    rw [setItems_direct hz, size_direct hz, size_direct hz', capacity_direct hz', items_direct hz']
    exact ⟨⟨hz', hlen⟩, rfl, rfl, rfl⟩
  · obtain ⟨hz, hN, hc, -⟩ := hv
    rw [size_indirect hz] at hk
    rw [capacity_indirect hz] at hlen ⊢
    have hz' : N < z - k := by omega
    rw [setItems_indirect hz, size_indirect hz, size_indirect hz', capacity_indirect hz', items_indirect hz']
    exact ⟨⟨hz', hN, by omega, hlen⟩, by omega, rfl, rfl⟩

theorem changeCapacity_spec (hv : v.Inv) (new_capacity : Nat) (h : v.size ≤ new_capacity) :
    (v.changeCapacity new_capacity).Inv ∧ (v.changeCapacity new_capacity).size = v.size ∧
      (v.changeCapacity new_capacity).capacity = max N new_capacity ∧
      (v.changeCapacity new_capacity).toList = v.toList := by
  obtain ⟨s | ⟨s, c⟩, z⟩ := v
  · obtain ⟨hz, hs⟩ := hv
    rw [size_direct hz] at h
    by_cases hnc : new_capacity ≤ N
    · -- inline already
      have hcc : (⟨.direct s, z⟩ : prevector N T).changeCapacity new_capacity = ⟨.direct s, z⟩ := by
        simp [prevector.changeCapacity, hnc, isDirect_direct hz]
      rw [hcc, capacity_direct hz, Nat.max_eq_left hnc]
      exact ⟨⟨hz, hs⟩, rfl, rfl, rfl⟩
    · -- moved to a heap block
      have hz' : N < z + (N + 1) := by omega
      have htake : (s.take z).length = z := List.length_take_of_le (by omega)
      have hcc : (⟨.direct s, z⟩ : prevector N T).changeCapacity new_capacity =
          ⟨.indirect (writeAt (List.replicate new_capacity none) 0 (s.take z)) new_capacity, z + (N + 1)⟩ := by
        simp [prevector.changeCapacity, hnc, isDirect_direct hz, size_direct hz, DirectOrIndirect.directSlots]
      rw [hcc, toList, toList, size_indirect hz', capacity_indirect hz', items_indirect hz', items_direct hz,
        size_direct hz, Nat.max_eq_right (by omega), show z + (N + 1) - N - 1 = z by omega]
      have hlen : (writeAt (List.replicate new_capacity none) 0 (s.take z)).length = new_capacity := by
        rw [length_writeAt, List.length_replicate]
        simp only [List.length_take, List.length_replicate]
        omega
      refine ⟨⟨hz', by omega, by omega, hlen⟩, rfl, rfl, ?_⟩
      have hw : (writeAt (List.replicate new_capacity none) 0 (s.take z)).take (s.take z).length = s.take z :=
        take_writeAt_zero (by simp; omega)
      rwa [htake] at hw
  · obtain ⟨hz, hN, hc, hs⟩ := hv
    rw [size_indirect hz] at h
    by_cases hnc : new_capacity ≤ N
    · -- back inline
      have hz' : z - (N + 1) ≤ N := by omega
      have htake : (s.take (z - N - 1)).length = z - (N + 1) := List.length_take_of_le (by omega)
      have hcc : (⟨.indirect s c, z⟩ : prevector N T).changeCapacity new_capacity =
          ⟨.direct (writeAt (List.replicate N none) 0 (s.take (z - N - 1))), z - (N + 1)⟩ := by
        simp [prevector.changeCapacity, hnc, isDirect_indirect hz, size_indirect hz,
          DirectOrIndirect.indirectSlots]
      rw [hcc, toList, toList, size_direct hz', capacity_direct hz', items_direct hz', items_indirect hz,
        size_indirect hz, Nat.max_eq_left hnc, show z - N - 1 = z - (N + 1) by omega]
      have hlen : (writeAt (List.replicate N none) 0 (s.take (z - N - 1))).length = N := by
        rw [length_writeAt, List.length_replicate]
        simp only [List.length_take, List.length_replicate]
        omega
      refine ⟨⟨hz', hlen⟩, rfl, rfl, ?_⟩
      have hw : (writeAt (List.replicate N none) 0 (s.take (z - N - 1))).take (s.take (z - N - 1)).length =
          s.take (z - N - 1) :=
        take_writeAt_zero (by simp; omega)
      rwa [htake] at hw
    · -- the heap block reallocated
      have hcc : (⟨.indirect s c, z⟩ : prevector N T).changeCapacity new_capacity =
          ⟨.indirect (resizeBlock s new_capacity none) new_capacity, z⟩ := by
        simp [prevector.changeCapacity, hnc, isDirect_indirect hz, DirectOrIndirect.indirectSlots]
      rw [hcc]
      refine ⟨⟨hz, by omega, by omega, length_resizeBlock _ _ _⟩, ?_, ?_, ?_⟩
      · rw [size_indirect hz, size_indirect hz]
      · rw [capacity_indirect hz, Nat.max_eq_right (by omega)]
      · rw [toList, toList, size_indirect hz, size_indirect hz, items_indirect hz, items_indirect hz]
        exact take_resizeBlock h (by omega) none

end Inv

section Ops

variable {v : prevector N T}

theorem erase_spec (hv : v.Inv) (first last : Nat) (hfl : first ≤ last) (hl : last ≤ v.size) :
    (v.erase first last).Inv ∧ (v.erase first last).capacity = v.capacity ∧
      (v.erase first last).toList = v.toList.take first ++ v.toList.drop last := by
  have hcap := hv.size_le_capacity
  have hslots : (moveWithin v.items first last (v.size - last)).length = v.capacity := by
    rw [length_moveWithin (by rw [hv.length_items]; omega), hv.length_items]
  obtain ⟨hinv, hsize, hcap', hitems⟩ := hv.update_sub hslots (k := last - first) (by omega)
  refine ⟨hinv, hcap', ?_⟩
  rw [toList, prevector.erase, hitems, hsize, take_moveWithin_close hfl hl (by rw [hv.length_items]; exact hcap),
    toList, List.take_take, Nat.min_eq_left (by omega : first ≤ v.size)]

theorem grow_spec (hv : v.Inv) (new_size : Nat) (h : v.size ≤ new_size) (hfit : Fits new_size) :
    (v.grow new_size).Inv ∧ (v.grow new_size).size = v.size ∧
      (v.grow new_size).capacity =
        (if v.capacity < new_size then max N (new_size + (new_size >>> 1)) else v.capacity) ∧
      (v.grow new_size).toList = v.toList := by
  -- the new capacity does not wrap
  unfold grow
  rw [Nat.mod_eq_of_lt hfit]
  split_ifs with hc
  · obtain ⟨hinv, hsize, hcap, hlist⟩ := changeCapacity_spec hv (new_size + (new_size >>> 1)) (by omega)
    exact ⟨hinv, hsize, hcap, hlist⟩
  · exact ⟨hv, rfl, rfl, rfl⟩

theorem le_capacity_grow (hv : v.Inv) (new_size : Nat) (h : v.size ≤ new_size) (hfit : Fits new_size) :
    new_size ≤ (v.grow new_size).capacity := by
  rw [(grow_spec hv new_size h hfit).2.2.1]
  split_ifs with hc
  · omega
  · omega

theorem insertSlots_spec (hv : v.Inv) {p : Nat} (hp : p ≤ v.size) (xs : List (Option T))
    (hfit : Fits (v.size + xs.length)) :
    (v.insertSlots p xs).Inv ∧
      (v.insertSlots p xs).capacity = (v.grow (v.size + xs.length)).capacity ∧
      (v.insertSlots p xs).toList = v.toList.take p ++ xs ++ v.toList.drop p := by
  obtain ⟨hinv, hsize, -, hlist⟩ := grow_spec hv (v.size + xs.length) (Nat.le_add_right _ _) hfit
  have hroom := le_capacity_grow hv (v.size + xs.length) (Nat.le_add_right _ _) hfit
  set w := v.grow (v.size + xs.length)
  have hlen := hinv.length_items
  have hslots : (writeAt (moveWithin w.items (p + xs.length) p (w.size - p)) p xs).length = w.capacity := by
    rw [length_writeAt (by rw [length_moveWithin (by omega)]; omega), length_moveWithin (by omega), hlen]
  obtain ⟨hinv', hsize', hcap', hitems'⟩ := hinv.update_add hslots (k := xs.length) (by omega)
  refine ⟨hinv', hcap', ?_⟩
  rw [toList, prevector.insertSlots, hitems', hsize', take_writeAt_moveWithin_gap (by omega) (by omega), ← hlist,
    toList, List.take_take, Nat.min_eq_left (by omega : p ≤ w.size)]

theorem insert_spec (hv : v.Inv) {p : Nat} (hp : p ≤ v.size) (value : T) (hfit : Fits (v.size + 1)) :
    (v.insert p value).Inv ∧ (v.insert p value).capacity = (v.grow (v.size + 1)).capacity ∧
      (v.insert p value).toList = v.toList.take p ++ [some value] ++ v.toList.drop p :=
  insertSlots_spec hv hp [some value] hfit

theorem insertRange_spec (hv : v.Inv) {p : Nat} (hp : p ≤ v.size) (xs : List T)
    (hfit : Fits (v.size + xs.length)) :
    (v.insertRange p xs).Inv ∧ (v.insertRange p xs).capacity = (v.grow (v.size + xs.length)).capacity ∧
      (v.insertRange p xs).toList = v.toList.take p ++ xs.map some ++ v.toList.drop p := by
  have h := insertSlots_spec hv hp (xs.map some) (by rw [List.length_map]; exact hfit)
  rw [List.length_map] at h
  exact h

theorem insertCount_eq_insertSlots (hv : v.Inv) {p : Nat} (hp : p ≤ v.size) (count : Nat) (value : T)
    (hfit : Fits (v.size + count)) :
    v.insertCount p count value = v.insertSlots p (List.replicate count (some value)) := by
  obtain ⟨hinv, hsize, -, -⟩ := grow_spec hv (v.size + count) (Nat.le_add_right _ _) hfit
  have hroom := le_capacity_grow hv (v.size + count) (Nat.le_add_right _ _) hfit
  simp only [insertCount, insertSlots, List.length_replicate]
  set w := v.grow (v.size + count)
  have hslots : (moveWithin w.items (p + count) p (w.size - p)).length = w.capacity := by
    rw [length_moveWithin (by rw [hinv.length_items]; omega), hinv.length_items]
  obtain ⟨-, -, -, hitems⟩ := hinv.update_add hslots (k := count) (by omega)
  rw [hitems, hinv.setItems_add _ count (by omega)]

theorem emplaceBack_spec (hv : v.Inv) (value : T) (hgrow : Fits (v.size + 1)) :
    (v.emplaceBack value).Inv ∧ (v.emplaceBack value).capacity = (v.grow (v.size + 1)).capacity ∧
      (v.emplaceBack value).toList = v.toList ++ [some value] := by
  obtain ⟨hinv, hsize, -, hlist⟩ := grow_spec hv (v.size + 1) (Nat.le_add_right _ _) hgrow
  have hroom := le_capacity_grow hv (v.size + 1) (Nat.le_add_right _ _) hgrow
  set w := v.grow (v.size + 1)
  have hfit : w.size + [some value].length ≤ w.items.length := by
    rw [hinv.length_items, List.length_singleton]
    omega
  have hslots : (writeAt w.items w.size [some value]).length = w.capacity := by
    rw [length_writeAt hfit, hinv.length_items]
  obtain ⟨hinv', hsize', hcap', hitems'⟩ := hinv.update_add hslots (k := 1) (by omega)
  refine ⟨hinv', hcap', ?_⟩
  have hend : (writeAt w.items w.size [some value]).take (w.size + 1) = w.items.take w.size ++ [some value] :=
    take_writeAt_end hfit
  rw [toList, prevector.emplaceBack, hitems', hsize', ← hlist, toList]
  exact hend

theorem popBack_spec (hv : v.Inv) (h : 0 < v.size) :
    v.popBack.Inv ∧ v.popBack.capacity = v.capacity ∧ v.popBack.toList = v.toList.dropLast := by
  obtain ⟨hinv, hcap, hlist⟩ := erase_spec hv (v.size - 1) v.size (by omega) (Nat.le_refl _)
  refine ⟨hinv, hcap, ?_⟩
  rw [popBack, hlist, List.drop_eq_nil_of_le (Nat.le_of_eq hv.length_toList), List.append_nil,
    List.dropLast_eq_take, hv.length_toList]

theorem insertCount_spec (hv : v.Inv) {p : Nat} (hp : p ≤ v.size) (count : Nat) (value : T)
    (hfit : Fits (v.size + count)) :
    (v.insertCount p count value).Inv ∧ (v.insertCount p count value).capacity = (v.grow (v.size + count)).capacity ∧
      (v.insertCount p count value).toList = v.toList.take p ++ List.replicate count (some value) ++ v.toList.drop p := by
  have h := insertSlots_spec hv hp (List.replicate count (some value)) (by rw [List.length_replicate]; exact hfit)
  rw [List.length_replicate] at h
  rw [insertCount_eq_insertSlots hv hp count value hfit]
  exact h

theorem reserve_spec (hv : v.Inv) (new_capacity : Nat) :
    (v.reserve new_capacity).Inv ∧
      (v.reserve new_capacity).capacity = (if new_capacity > v.capacity then max N new_capacity else v.capacity) ∧
      (v.reserve new_capacity).toList = v.toList := by
  unfold reserve
  split_ifs with hc
  · obtain ⟨hinv, -, hcap, hlist⟩ := changeCapacity_spec hv new_capacity (by have := hv.size_le_capacity; omega)
    exact ⟨hinv, hcap, hlist⟩
  · exact ⟨hv, rfl, rfl⟩

theorem shrinkToFit_spec (hv : v.Inv) :
    v.shrinkToFit.Inv ∧ v.shrinkToFit.capacity = max N v.size ∧
      v.shrinkToFit.isDirect = decide (v.size ≤ N) ∧ v.shrinkToFit.toList = v.toList := by
  obtain ⟨hinv, -, hcap, hlist⟩ := changeCapacity_spec hv v.size (Nat.le_refl _)
  refine ⟨hinv, hcap, ?_, hlist⟩
  show (v.changeCapacity v.size).isDirect = _
  rw [hinv.isDirect_eq, hcap]
  by_cases h : v.size ≤ N
  · rw [Nat.max_eq_left h, decide_eq_true (Nat.le_refl N), decide_eq_true h]
  · rw [Nat.max_eq_right (by omega), decide_eq_false h]

theorem set_spec (hv : v.Inv) (pos : Nat) (value : T) :
    (v.set pos value).Inv ∧ (v.set pos value).capacity = v.capacity ∧
      (v.set pos value).toList = v.toList.set pos (some value) := by
  have hslots : (v.items.set pos (some value)).length = v.capacity := by rw [List.length_set, hv.length_items]
  obtain ⟨hinv, hsize, hcap, hitems⟩ := hv.update_add hslots (k := 0) (by have := hv.size_le_capacity; omega)
  simp only [Nat.add_zero] at hinv hsize hcap hitems
  exact ⟨hinv, hcap, by rw [toList, prevector.set, hitems, hsize, List.take_set, toList]⟩

section Default

variable [Inhabited T]

theorem resize_spec (hv : v.Inv) (new_size : Nat) :
    (v.resize new_size).Inv ∧
      (v.resize new_size).capacity = (if new_size > v.capacity then max N new_size else v.capacity) ∧
      (v.resize new_size).toList = v.toList.take new_size ++ List.replicate (new_size - v.size) (some default) := by
  have hcap := hv.size_le_capacity
  unfold resize
  dsimp only
  by_cases heq : v.size = new_size
  · -- nothing to do
    rw [if_pos heq, ← heq, List.take_of_length_le (Nat.le_of_eq hv.length_toList), Nat.sub_self,
      List.replicate_zero, List.append_nil, if_neg (by omega)]
    exact ⟨hv, rfl, rfl⟩
  rw [if_neg heq]
  by_cases hgt : v.size > new_size
  · -- cut: the tail erased
    obtain ⟨hinv, hcap', hlist⟩ := erase_spec hv new_size v.size (by omega) (Nat.le_refl _)
    rw [if_pos hgt, hlist, List.drop_eq_nil_of_le (Nat.le_of_eq hv.length_toList), Nat.sub_eq_zero_of_le (by omega),
      List.replicate_zero, if_neg (by omega)]
    exact ⟨hinv, hcap', rfl⟩
  -- grown: value-initialised elements appended, after a reallocation if they do not fit
  rw [if_neg hgt, List.take_of_length_le (by rw [hv.length_toList]; omega)]
  obtain ⟨hinv, hsize, hcap', hlist⟩ : (if new_size > v.capacity then v.changeCapacity new_size else v).Inv ∧
      (if new_size > v.capacity then v.changeCapacity new_size else v).size = v.size ∧
      (if new_size > v.capacity then v.changeCapacity new_size else v).capacity =
        (if new_size > v.capacity then max N new_size else v.capacity) ∧
      (if new_size > v.capacity then v.changeCapacity new_size else v).toList = v.toList := by
    split_ifs with hc
    · exact changeCapacity_spec hv new_size (by omega)
    · exact ⟨hv, rfl, rfl, rfl⟩
  set w := if new_size > v.capacity then v.changeCapacity new_size else v
  have hroom : new_size ≤ w.capacity := by
    rw [hcap']
    split_ifs with hc
    · omega
    · omega
  have hfit : v.size + (List.replicate (new_size - v.size) (some (default : T))).length ≤ w.items.length := by
    rw [List.length_replicate, hinv.length_items]
    omega
  have hslots : (writeAt w.items v.size (List.replicate (new_size - v.size) (some default))).length = w.capacity := by
    rw [length_writeAt hfit, hinv.length_items]
  obtain ⟨hinv', hsize', hcap'', hitems'⟩ := hinv.update_add hslots (k := new_size - v.size) (by omega)
  refine ⟨hinv', hcap''.trans hcap', ?_⟩
  have hend := take_writeAt_end hfit
  rw [List.length_replicate] at hend
  rw [toList, hitems', hsize', hsize, hend, ← hlist, toList, hsize]

theorem clear_spec (hv : v.Inv) : v.clear.Inv ∧ v.clear.capacity = v.capacity ∧ v.clear.toList = [] := by
  obtain ⟨hinv, hcap, hlist⟩ := resize_spec hv 0
  rw [if_neg (Nat.not_lt_zero _)] at hcap
  rw [List.take_zero, Nat.zero_sub, List.replicate_zero, List.append_nil] at hlist
  exact ⟨hinv, hcap, hlist⟩

end Default

theorem fill_spec (hv : v.Inv) (hsize : v.size = 0) (xs : List (Option T)) (hroom : xs.length ≤ v.capacity) :
    Inv (⟨(⟨v._union, v._size + xs.length⟩ : prevector N T).setItems
        (writeAt (⟨v._union, v._size + xs.length⟩ : prevector N T).items 0 xs), v._size + xs.length⟩ :
        prevector N T) ∧
      capacity (⟨(⟨v._union, v._size + xs.length⟩ : prevector N T).setItems
        (writeAt (⟨v._union, v._size + xs.length⟩ : prevector N T).items 0 xs), v._size + xs.length⟩ :
        prevector N T) = v.capacity ∧
      toList (⟨(⟨v._union, v._size + xs.length⟩ : prevector N T).setItems
        (writeAt (⟨v._union, v._size + xs.length⟩ : prevector N T).items 0 xs), v._size + xs.length⟩ :
        prevector N T) = xs := by
  have hitems0 : v.items.length = v.capacity := hv.length_items
  obtain ⟨hu, husize, hucap, huitems⟩ := hv.update_add hitems0 (k := xs.length) (by omega)
  rw [hv.setItems_items] at hu husize hucap huitems
  have hfit : 0 + xs.length ≤ (⟨v._union, v._size + xs.length⟩ : prevector N T).items.length := by
    rw [huitems, hitems0]
    omega
  have hslots : (writeAt (⟨v._union, v._size + xs.length⟩ : prevector N T).items 0 xs).length =
      (⟨v._union, v._size + xs.length⟩ : prevector N T).capacity := by
    rw [length_writeAt hfit, hu.length_items]
  obtain ⟨hinv, hsize', hcap, hitems⟩ := hu.update_add hslots (k := 0) (by omega)
  simp only [Nat.add_zero] at hinv hsize' hcap hitems
  refine ⟨hinv, hcap.trans hucap, ?_⟩
  rw [toList, hitems, hsize', husize, hsize, Nat.zero_add]
  exact take_writeAt_zero (by rw [huitems, hitems0]; exact hroom)

theorem construct_spec (xs : List (Option T)) :
    (construct xs : prevector N T).Inv ∧ (construct xs : prevector N T).capacity = max N xs.length ∧
      (construct xs : prevector N T).toList = xs := by
  have he : (empty : prevector N T).Inv := ⟨Nat.zero_le N, List.length_replicate⟩
  have hsize : (empty : prevector N T).size = 0 := size_direct (Nat.zero_le N)
  obtain ⟨hw, hwsize, hwcap, -⟩ := changeCapacity_spec he xs.length (by rw [hsize]; exact Nat.zero_le _)
  obtain ⟨hinv, hcap, hlist⟩ := fill_spec hw (hwsize.trans hsize) xs (by rw [hwcap]; exact Nat.le_max_right _ _)
  exact ⟨hinv, hcap.trans hwcap, hlist⟩

theorem assignSlots_spec [Inhabited T] (hv : v.Inv) (xs : List (Option T)) :
    (v.assignSlots xs).Inv ∧
      (v.assignSlots xs).capacity = (if v.capacity < xs.length then max N xs.length else v.capacity) ∧
      (v.assignSlots xs).toList = xs := by
  obtain ⟨hc, hccap, hclist⟩ := clear_spec hv
  have hcsize : v.clear.size = 0 := by rw [← hc.length_toList, hclist, List.length_nil]
  unfold assignSlots
  dsimp only
  rw [hccap]
  split_ifs with hlt
  · obtain ⟨hw, hwsize, hwcap, -⟩ := changeCapacity_spec hc xs.length (by omega)
    obtain ⟨hinv, hcap, hlist⟩ := fill_spec hw (hwsize.trans hcsize) xs (by rw [hwcap]; exact Nat.le_max_right _ _)
    exact ⟨hinv, hcap.trans hwcap, hlist⟩
  · obtain ⟨hinv, hcap, hlist⟩ := fill_spec hc hcsize xs (by omega)
    exact ⟨hinv, hcap.trans hccap, hlist⟩

theorem resizeUninitialized_spec (hv : v.Inv) (new_size : Nat) :
    (v.resizeUninitialized new_size).Inv ∧ (v.resizeUninitialized new_size).size = new_size ∧
      (v.resizeUninitialized new_size).capacity =
        (if v.capacity < new_size then max N new_size else v.capacity) ∧
      (v.resizeUninitialized new_size).toList.take v.size = v.toList.take new_size := by
  have hcap := hv.size_le_capacity
  unfold resizeUninitialized
  split_ifs with hlt hshrink
  · -- reallocated, then the size raised over the new slots
    obtain ⟨hw, hwsize, hwcap, hwlist⟩ := changeCapacity_spec hv new_size (by omega)
    obtain ⟨hinv, hsize, hcap', hitems⟩ := hw.update_add hw.length_items (k := new_size - (v.changeCapacity new_size).size)
      (by rw [hwcap, hwsize]; omega)
    rw [hw.setItems_items] at hinv hsize hcap' hitems
    refine ⟨hinv, by rw [hsize, hwsize]; omega, hcap'.trans hwcap, ?_⟩
    rw [toList, hitems, hsize, hwsize, List.take_take, Nat.min_eq_left (by omega), ← hwsize, ← toList, hwlist,
      List.take_of_length_le (by rw [hv.length_toList]; omega)]
  · -- cut: the tail erased
    obtain ⟨hinv, hcap', hlist⟩ := erase_spec hv new_size v.size (by omega) (Nat.le_refl _)
    have hsize : (v.erase new_size v.size).size = new_size := by
      rw [← hinv.length_toList, hlist, List.drop_eq_nil_of_le (Nat.le_of_eq hv.length_toList), List.append_nil,
        List.length_take, hv.length_toList, Nat.min_eq_left (by omega)]
    refine ⟨hinv, hsize, hcap', ?_⟩
    rw [hlist, List.drop_eq_nil_of_le (Nat.le_of_eq hv.length_toList), List.append_nil, List.take_take,
      Nat.min_eq_right (by omega)]
  · -- room enough: the size raised over the slots there
    obtain ⟨hinv, hsize, hcap', hitems⟩ := hv.update_add hv.length_items (k := new_size - v.size) (by omega)
    rw [hv.setItems_items] at hinv hsize hcap' hitems
    refine ⟨hinv, by rw [hsize]; omega, hcap', ?_⟩
    rw [toList, hitems, hsize, List.take_take, Nat.min_eq_left (by omega), ← toList,
      List.take_of_length_le (by rw [hv.length_toList]; omega)]

theorem get_eq {pos : Nat} (h : pos < v.size) : v.get pos = (v.toList[pos]?).join := by
  rw [get, toList, List.getElem?_take_of_lt h]

end Ops

end prevector

end YuPost.Primitives
