import YuPost.Primitives.Prevector
import YuPost.Primitives.Transaction

/-! `Unserialize_impl` of `serialize.h` for a `prevector` of bytes: the
prevector cleared, the size read as a compact size, then the bytes read in
blocks of at most five million, each after a `resize_uninitialized` that
makes room for it. A read past the end of the stream throws, here `none`. -/

namespace YuPost.Primitives

open YuPost.Lib

namespace prevector

variable {N : Nat}

/-- `is.read((char*)&v[i], n)`: bytes copied into the elements from `i` on. -/
def readInto (v : prevector N UInt8) (i : Nat) (bytes : List UInt8) : prevector N UInt8 :=
  ⟨v.setItems (writeAt v.items i (bytes.map some)), v._size⟩

/-- The loop of `Unserialize_impl` from element `i` on, `fuel` blocks left. -/
def readBlocks (nSize : Nat) : Nat → Nat → prevector N UInt8 → List UInt8 → Option (prevector N UInt8 × List UInt8)
  | 0, _, v, s => some (v, s)
  | fuel + 1, i, v, s =>
    if i < nSize then
      let blk := min (nSize - i) (1 + 4999999 / 1)
      let v := v.resizeUninitialized (i + blk)
      if s.length < blk then none
      else readBlocks nSize fuel (i + blk) (v.readInto i (s.take blk)) (s.drop blk)
    else some (v, s)

def unserializeImpl (v : prevector N UInt8) (s : List UInt8) : Option (prevector N UInt8 × List UInt8) :=
  let v := v.clear
  (readCompactSize s).bind fun (nSize, s) => readBlocks nSize nSize 0 v s

variable {v : prevector N UInt8}

theorem readInto_spec (hv : v.Inv) {i : Nat} {bytes : List UInt8} (h : i + bytes.length = v.size) :
    (v.readInto i bytes).Inv ∧ (v.readInto i bytes).size = v.size ∧
      (v.readInto i bytes).toList = v.toList.take i ++ bytes.map some := by
  have hcap := hv.size_le_capacity
  have hfit : i + (bytes.map some).length ≤ v.items.length := by
    rw [List.length_map, hv.length_items]
    omega
  have hslots : (writeAt v.items i (bytes.map some)).length = v.capacity := by
    rw [length_writeAt hfit, hv.length_items]
  obtain ⟨hinv, hsize, -, hitems⟩ := hv.update_add hslots (k := 0) (by omega)
  simp only [Nat.add_zero] at hinv hsize hitems
  refine ⟨hinv, hsize, ?_⟩
  have hend := take_writeAt_end hfit
  rw [List.length_map] at hend
  rw [toList, readInto, hitems, hsize, ← h, hend, toList, List.take_take, Nat.min_eq_left (by omega)]

theorem readBlocks_exit {pre : List UInt8} (hv : v.Inv) (hlist : v.toList = pre.map some) (s : List UInt8) :
    ∃ v', some (v, s) = some (v', s.drop 0) ∧ v'.Inv ∧ v'.toList = (pre ++ s.take 0).map some :=
  ⟨v, rfl, hv, by rw [List.take_zero, List.append_nil, hlist]⟩

theorem readBlocks_spec (nSize : Nat) :
    ∀ (fuel i : Nat) (v : prevector N UInt8) (pre s : List UInt8), v.Inv → v.size = i →
      v.toList = pre.map some → i ≤ nSize → nSize - i ≤ fuel →
      (nSize - i ≤ s.length →
        ∃ v', readBlocks nSize fuel i v s = some (v', s.drop (nSize - i)) ∧ v'.Inv ∧
          v'.toList = (pre ++ s.take (nSize - i)).map some) ∧
      (s.length < nSize - i → readBlocks nSize fuel i v s = none) := by
  intro fuel
  induction fuel with
  | zero =>
    intro i v pre s hv hsize hlist hi hfuel
    have hdone : nSize - i = 0 := by omega
    rw [hdone]
    exact ⟨fun _ => readBlocks_exit hv hlist s, fun h => absurd h (by omega)⟩
  | succ fuel ih =>
    intro i v pre s hv hsize hlist hi hfuel
    by_cases hlt : i < nSize
    · -- one more block, after room is made for it
      have hblk : 0 < min (nSize - i) (1 + 4999999 / 1) := by omega
      obtain ⟨hw, hwsize, -, hwlist⟩ := resizeUninitialized_spec hv (i + min (nSize - i) (1 + 4999999 / 1))
      set blk := min (nSize - i) (1 + 4999999 / 1)
      set w := v.resizeUninitialized (i + blk)
      have hkept : w.toList.take i = pre.map some := by
        rw [← hsize, hwlist, List.take_of_length_le (by rw [hv.length_toList]; omega), hlist]
      by_cases hshort : s.length < blk
      · -- the stream ends inside the block
        refine ⟨fun h => absurd h (by omega), fun _ => ?_⟩
        rw [readBlocks, if_pos hlt, if_pos hshort]
      · have hlen : i + (s.take blk).length = w.size := by
          rw [List.length_take, hwsize]
          omega
        obtain ⟨hr, hrsize, hrlist⟩ := readInto_spec hw hlen
        rw [hkept] at hrlist
        have hstep : readBlocks nSize (fuel + 1) i v s =
            readBlocks nSize fuel (i + blk) (w.readInto i (s.take blk)) (s.drop blk) := by
          rw [readBlocks, if_pos hlt, if_neg hshort]
        rw [hstep]
        obtain ⟨hok, hfail⟩ := ih (i + blk) (w.readInto i (s.take blk)) (pre ++ s.take blk) (s.drop blk) hr
          (by rw [hrsize, hwsize]) (by rw [hrlist, List.map_append]) (by omega) (by omega)
        have hrest : nSize - (i + blk) = nSize - i - blk := by omega
        have hsum : blk + (nSize - i - blk) = nSize - i := by omega
        refine ⟨fun h => ?_, fun h => hfail (by rw [List.length_drop]; omega)⟩
        obtain ⟨v', hv', hinv', hlist'⟩ := hok (by rw [List.length_drop]; omega)
        refine ⟨v', ?_, hinv', ?_⟩
        · rw [hv', List.drop_drop, hrest, hsum]
        · have hsplit : s.take (nSize - i) = s.take blk ++ (s.drop blk).take (nSize - i - blk) := by
            rw [← List.take_add, hsum]
          rw [hlist', hrest, List.append_assoc, hsplit]
    · -- every byte read
      have hdone : nSize - i = 0 := by omega
      rw [hdone, readBlocks, if_neg hlt]
      exact ⟨fun _ => readBlocks_exit hv hlist s, fun h => absurd h (by omega)⟩

/-- Reading a script into any valid prevector, block by block, reads what
`readScript` reads, fails exactly when it fails, and leaves a valid prevector. -/
theorem unserializeImpl_refines_readScript (v : prevector N UInt8) (hv : v.Inv) (s : List UInt8) :
    (unserializeImpl v s).map (fun r => (r.1.toList, r.2)) =
      (readScript s).map (fun r => (r.1.map some, r.2)) ∧
    ∀ r ∈ unserializeImpl v s, r.1.Inv := by
  obtain ⟨hc, -, hclist⟩ := clear_spec hv
  have hcsize : v.clear.size = 0 := by rw [← hc.length_toList, hclist, List.length_nil]
  unfold unserializeImpl readScript
  cases hread : readCompactSize s with
  | none => simp
  | some p =>
    obtain ⟨nSize, rest⟩ := p
    obtain ⟨hok, hfail⟩ := readBlocks_spec nSize nSize 0 v.clear [] rest hc hcsize hclist
      (Nat.zero_le _) (by omega)
    simp only [Option.bind_some, Nat.sub_zero, List.nil_append] at hok hfail ⊢
    by_cases hshort : rest.length < nSize
    · rw [hfail hshort, if_pos hshort]
      simp
    · obtain ⟨v', hv', hinv', hlist'⟩ := hok (by omega)
      rw [hv', if_neg hshort]
      simp [hlist', hinv']

theorem unserializeImpl_refines_readScript_of_three_bytes :
    (empty : prevector 2 UInt8).Inv ∧
      readScript [3, 7, 8, 9, 5] = some ([7, 8, 9], [5]) ∧
      ((unserializeImpl (empty : prevector 2 UInt8) [3, 7, 8, 9, 5]).map fun r => (r.1.toList, r.2)) =
        (readScript [3, 7, 8, 9, 5]).map (fun r => (r.1.map some, r.2)) ∧
      ∀ r ∈ unserializeImpl (empty : prevector 2 UInt8) [3, 7, 8, 9, 5], r.1.Inv := by
  have he : (empty : prevector 2 UInt8).Inv := ⟨Nat.zero_le 2, List.length_replicate⟩
  exact ⟨he, by decide, unserializeImpl_refines_readScript empty he [3, 7, 8, 9, 5]⟩

end prevector

end YuPost.Primitives
