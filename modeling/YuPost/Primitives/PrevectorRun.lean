import YuPost.Primitives.Prevector

/-! Runs of `prevector` member calls, against the same calls on a
`std::vector` read as a list of its elements. -/

namespace YuPost.Primitives

namespace prevector

/-- The member calls that change a `prevector`. -/
inductive Op (T : Type)
  | assign (n : Nat) (val : T)
  | assignRange (xs : List T)
  | resize (n : Nat)
  | reserve (n : Nat)
  | shrinkToFit
  | clear
  | insert (pos : Nat) (value : T)
  | insertCount (pos count : Nat) (value : T)
  | insertRange (pos : Nat) (xs : List T)
  | erase (first last : Nat)
  | pushBack (value : T)
  | popBack
  | set (pos : Nat) (value : T)

variable {N : Nat} {T : Type} [Inhabited T]

def step (v : prevector N T) : Op T → prevector N T
  | .assign n val => v.assign n val
  | .assignRange xs => v.assignRange xs
  | .resize n => v.resize n
  | .reserve n => v.reserve n
  | .shrinkToFit => v.shrinkToFit
  | .clear => v.clear
  | .insert pos value => v.insert pos value
  | .insertCount pos count value => v.insertCount pos count value
  | .insertRange pos xs => v.insertRange pos xs
  | .erase first last => v.erase first last
  | .pushBack value => v.pushBack value
  | .popBack => v.popBack
  | .set pos value => v.set pos value

def run (v : prevector N T) (ops : List (Op T)) : prevector N T := ops.foldl step v

/-- What each call does to the elements of a `std::vector`. -/
def Op.vecApply : Op T → List T → List T
  | .assign n val, _ => List.replicate n val
  | .assignRange ys, _ => ys
  | .resize n, xs => xs.take n ++ List.replicate (n - xs.length) default
  | .reserve _, xs => xs
  | .shrinkToFit, xs => xs
  | .clear, _ => []
  | .insert pos value, xs => xs.take pos ++ [value] ++ xs.drop pos
  | .insertCount pos count value, xs => xs.take pos ++ List.replicate count value ++ xs.drop pos
  | .insertRange pos ys, xs => xs.take pos ++ ys ++ xs.drop pos
  | .erase first last, xs => xs.take first ++ xs.drop last
  | .pushBack value, xs => xs ++ [value]
  | .popBack, xs => xs.dropLast
  | .set pos value, xs => xs.set pos value

/-- The calls' preconditions on a vector of these elements: iterators within
the elements, an element to pop, an index below the size; and sizes that
`size_type` holds, with room for the growth of an insertion. -/
def Op.valid : Op T → List T → Bool
  | .assign n _, _ => decide (n < 2 ^ 32)
  | .assignRange ys, _ => decide (ys.length < 2 ^ 32)
  | .resize n, _ => decide (n < 2 ^ 32)
  | .reserve n, _ => decide (n < 2 ^ 32)
  | .insert pos _, xs => decide (pos ≤ xs.length) && decide (Fits (xs.length + 1))
  | .insertCount pos count _, xs => decide (pos ≤ xs.length) && decide (Fits (xs.length + count))
  | .insertRange pos ys, xs => decide (pos ≤ xs.length) && decide (Fits (xs.length + ys.length))
  | .erase first last, xs => decide (first ≤ last) && decide (last ≤ xs.length)
  | .pushBack _, xs => decide (Fits (xs.length + 1))
  | .popBack, xs => decide (0 < xs.length)
  | .set pos _, xs => decide (pos < xs.length)
  | _, _ => true

def vecRun (xs : List T) (ops : List (Op T)) : List T := ops.foldl (fun xs op => op.vecApply xs) xs

/-- Every call of the run meets its precondition, with sizes that fit. -/
def validRun : List T → List (Op T) → Bool
  | _, [] => true
  | xs, op :: ops => op.valid xs && validRun (op.vecApply xs) ops

variable {v : prevector N T} {xs : List T}

omit [Inhabited T] in
theorem size_eq_length (hv : v.Inv) (hxs : v.toList = xs.map some) : v.size = xs.length := by
  rw [← hv.length_toList, hxs, List.length_map]

theorem step_spec (hv : v.Inv) (hxs : v.toList = xs.map some) (op : Op T) (hop : op.valid xs = true) :
    (v.step op).Inv ∧ (v.step op).toList = (op.vecApply xs).map some := by
  have hsize := size_eq_length hv hxs
  cases op with
  | assign n val =>
    obtain ⟨hinv, -, hlist⟩ := assignSlots_spec hv (List.replicate n (some val))
    exact ⟨hinv, by rw [step, assign, hlist, Op.vecApply, List.map_replicate]⟩
  | assignRange ys =>
    obtain ⟨hinv, -, hlist⟩ := assignSlots_spec hv (ys.map some)
    exact ⟨hinv, hlist⟩
  | resize n =>
    obtain ⟨hinv, -, hlist⟩ := resize_spec hv n
    refine ⟨hinv, ?_⟩
    rw [step, hlist, hxs, hsize, Op.vecApply, List.map_append, List.map_take, List.map_replicate]
  | reserve n =>
    obtain ⟨hinv, -, hlist⟩ := reserve_spec hv n
    exact ⟨hinv, hlist.trans hxs⟩
  | shrinkToFit =>
    obtain ⟨hinv, -, -, hlist⟩ := shrinkToFit_spec hv
    exact ⟨hinv, hlist.trans hxs⟩
  | clear =>
    obtain ⟨hinv, -, hlist⟩ := clear_spec hv
    exact ⟨hinv, hlist⟩
  | insert pos value =>
    have hp : pos ≤ v.size ∧ Fits (v.size + 1) := by simpa [Op.valid, hsize] using hop
    obtain ⟨hinv, -, hlist⟩ := insert_spec hv hp.1 value hp.2
    refine ⟨hinv, ?_⟩
    rw [step, hlist, hxs, Op.vecApply, List.map_append, List.map_append, List.map_take, List.map_drop]
    rfl
  | insertCount pos count value =>
    have hp : pos ≤ v.size ∧ Fits (v.size + count) := by simpa [Op.valid, hsize] using hop
    obtain ⟨hinv, -, hlist⟩ := insertCount_spec hv hp.1 count value hp.2
    refine ⟨hinv, ?_⟩
    rw [step, hlist, hxs, Op.vecApply, List.map_append, List.map_append, List.map_take, List.map_drop,
      List.map_replicate]
  | insertRange pos ys =>
    have hp : pos ≤ v.size ∧ Fits (v.size + ys.length) := by simpa [Op.valid, hsize] using hop
    obtain ⟨hinv, -, hlist⟩ := insertRange_spec hv hp.1 ys hp.2
    refine ⟨hinv, ?_⟩
    rw [step, hlist, hxs, Op.vecApply, List.map_append, List.map_append, List.map_take, List.map_drop]
  | erase first last =>
    have hfl : first ≤ last ∧ last ≤ v.size := by simpa [Op.valid, hsize] using hop
    obtain ⟨hinv, -, hlist⟩ := erase_spec hv first last hfl.1 hfl.2
    refine ⟨hinv, ?_⟩
    rw [step, hlist, hxs, Op.vecApply, List.map_append, List.map_take, List.map_drop]
  | pushBack value =>
    have hfit : Fits (v.size + 1) := by simpa [Op.valid, hsize] using hop
    obtain ⟨hinv, -, hlist⟩ := emplaceBack_spec hv value hfit
    refine ⟨hinv, ?_⟩
    rw [step, pushBack, hlist, hxs, Op.vecApply, List.map_append]
    rfl
  | popBack =>
    have hpos : 0 < v.size := by simpa [Op.valid, hsize] using hop
    obtain ⟨hinv, -, hlist⟩ := popBack_spec hv hpos
    exact ⟨hinv, by rw [step, hlist, hxs, Op.vecApply, List.map_dropLast]⟩
  | set pos value =>
    obtain ⟨hinv, -, hlist⟩ := set_spec hv pos value
    exact ⟨hinv, by rw [step, hlist, hxs, Op.vecApply, List.map_set]⟩

/-- The capacity `insert` and `push_back` leave: the old one while the new
size fits in it, half as much again as the new size when it does not. -/
def growCapacity (capacity new_size : Nat) : Nat :=
  if capacity < new_size then new_size + (new_size >>> 1) else capacity

/-- The capacity each call leaves, from the capacity and the elements before
it, as the growth policy of `prevector.h` has it: the calls that make room
make just enough, or half as much again for an insertion; `shrink_to_fit`
keeps room for the elements, or for `N`; the rest keep what there is. -/
def Op.capacityAfter (N : Nat) : Op T → Nat → List T → Nat
  | .assign n _, c, _ => max c n
  | .assignRange ys, c, _ => max c ys.length
  | .resize n, c, _ => max c n
  | .reserve n, c, _ => max c n
  | .shrinkToFit, _, xs => max N xs.length
  | .insert _ _, c, xs => growCapacity c (xs.length + 1)
  | .insertCount _ count _, c, xs => growCapacity c (xs.length + count)
  | .insertRange _ ys, c, xs => growCapacity c (xs.length + ys.length)
  | .pushBack _, c, xs => growCapacity c (xs.length + 1)
  | _, c, _ => c

/-- The capacities of a run, call after call. -/
def capacityRun (N : Nat) : Nat → List T → List (Op T) → Nat
  | c, _, [] => c
  | c, xs, op :: ops => capacityRun N (op.capacityAfter N c xs) (op.vecApply xs) ops

/-- `shrink_to_fit`, the one call that gives memory back. -/
def Op.isShrink : Op T → Bool
  | .shrinkToFit => true
  | _ => false

omit [Inhabited T] in
theorem ite_capacity_eq_max {c n : Nat} (hN : N ≤ c) : (if c < n then max N n else c) = max c n := by
  split_ifs with hc <;> omega

omit [Inhabited T] in
theorem ite_capacity_eq_grow {c n : Nat} (hN : N ≤ c) :
    (if c < n then max N (n + (n >>> 1)) else c) = growCapacity c n := by
  unfold growCapacity
  split_ifs with hc <;> omega

omit [Inhabited T] in
theorem capacity_grow (hv : v.Inv) {new_size : Nat} (h : v.size ≤ new_size) (hfit : Fits new_size) :
    (v.grow new_size).capacity = growCapacity v.capacity new_size := by
  rw [(grow_spec hv new_size h hfit).2.2.1, ite_capacity_eq_grow hv.le_capacity]

theorem capacity_step (hv : v.Inv) (hxs : v.toList = xs.map some) (op : Op T) (hop : op.valid xs = true) :
    (v.step op).capacity = op.capacityAfter N v.capacity xs := by
  have hsize := size_eq_length hv hxs
  have hN := hv.le_capacity
  cases op with
  | assign n val =>
    rw [step, assign, (assignSlots_spec hv _).2.1, List.length_replicate, ite_capacity_eq_max hN]
    rfl
  | assignRange ys =>
    rw [step, assignRange, (assignSlots_spec hv _).2.1, List.length_map, ite_capacity_eq_max hN]
    rfl
  | resize n =>
    rw [step, (resize_spec hv n).2.1]
    exact ite_capacity_eq_max hN
  | reserve n =>
    rw [step, (reserve_spec hv n).2.1]
    exact ite_capacity_eq_max hN
  | shrinkToFit =>
    rw [step, (shrinkToFit_spec hv).2.1, hsize]
    rfl
  | clear => exact (clear_spec hv).2.1
  | insert pos value =>
    have hp : pos ≤ v.size ∧ Fits (v.size + 1) := by simpa [Op.valid, hsize] using hop
    rw [step, (insert_spec hv hp.1 value hp.2).2.1, capacity_grow hv (Nat.le_add_right _ _) hp.2, hsize]
    rfl
  | insertCount pos count value =>
    have hp : pos ≤ v.size ∧ Fits (v.size + count) := by simpa [Op.valid, hsize] using hop
    rw [step, (insertCount_spec hv hp.1 count value hp.2).2.1, capacity_grow hv (Nat.le_add_right _ _) hp.2, hsize]
    rfl
  | insertRange pos ys =>
    have hp : pos ≤ v.size ∧ Fits (v.size + ys.length) := by simpa [Op.valid, hsize] using hop
    rw [step, (insertRange_spec hv hp.1 ys hp.2).2.1, capacity_grow hv (Nat.le_add_right _ _) hp.2, hsize]
    rfl
  | erase first last =>
    have hfl : first ≤ last ∧ last ≤ v.size := by simpa [Op.valid, hsize] using hop
    exact (erase_spec hv first last hfl.1 hfl.2).2.1
  | pushBack value =>
    have hfit : Fits (v.size + 1) := by simpa [Op.valid, hsize] using hop
    rw [step, pushBack, (emplaceBack_spec hv value hfit).2.1, capacity_grow hv (Nat.le_add_right _ _) hfit, hsize]
    rfl
  | popBack =>
    have hpos : 0 < v.size := by simpa [Op.valid, hsize] using hop
    exact (popBack_spec hv hpos).2.1
  | set pos value => exact (set_spec hv pos value).2.1

omit [Inhabited T] in
theorem le_capacityAfter {c : Nat} (op : Op T) (xs : List T) (hshrink : op.isShrink = false) :
    c ≤ op.capacityAfter N c xs := by
  cases op with
  | shrinkToFit => cases hshrink
  | insert _ _ | insertCount _ _ _ | insertRange _ _ | pushBack _ =>
    -- an insertion keeps the capacity or grows past it
    simp only [Op.capacityAfter, growCapacity]
    split_ifs <;> omega
  | _ =>
    simp only [Op.capacityAfter]
    omega

theorem le_capacityRun (c : Nat) (xs : List T) (ops : List (Op T))
    (hno : ops.all (fun op => !op.isShrink) = true) : c ≤ capacityRun N c xs ops := by
  induction ops generalizing c xs with
  | nil => exact Nat.le_refl c
  | cons op ops ih =>
    rw [List.all_cons, Bool.and_eq_true, Bool.not_eq_true'] at hno
    exact Nat.le_trans (le_capacityAfter op xs hno.1) (ih _ _ hno.2)

theorem capacity_run (v : prevector N T) (hv : v.Inv) (xs : List T) (hxs : v.toList = xs.map some)
    (ops : List (Op T)) (hvalid : validRun xs ops = true) :
    (v.run ops).capacity = capacityRun N v.capacity xs ops := by
  -- call by call, with the representation invariant carried by `step_spec`
  induction ops generalizing v xs with
  | nil => rfl
  | cons op ops ih =>
    rw [validRun, Bool.and_eq_true] at hvalid
    obtain ⟨hinv, hlist⟩ := step_spec hv hxs op hvalid.1
    rw [run, List.foldl_cons, ← run, ih (v.step op) hinv (op.vecApply xs) hlist hvalid.2,
      capacity_step hv hxs op hvalid.1]
    rfl

end prevector

end YuPost.Primitives
