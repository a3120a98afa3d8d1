import Mathlib

/-! `ConditionStack` of `script/interpreter.cpp`: the stack of IF/ELSE
branches `EvalScript` is in. It stands for a vector of booleans, one for each
level, of which only whether it is empty and whether it is all true can be
read; it is kept as the vector's size and the position of its first false
value, both `uint32_t`. -/

namespace YuPost.Script

/-- `ConditionStack`. -/
structure ConditionStack where
  m_stack_size : UInt32
  m_first_false_pos : UInt32
deriving DecidableEq

namespace ConditionStack

/-- `NO_FALSE`: `std::numeric_limits<uint32_t>::max()`. -/
def NO_FALSE : UInt32 := 0xFFFFFFFF

/-- A new stack: no levels, no false value. -/
def init : ConditionStack := ⟨0, NO_FALSE⟩

def empty (c : ConditionStack) : Bool := c.m_stack_size == 0

def all_true (c : ConditionStack) : Bool := c.m_first_false_pos == NO_FALSE

def push_back (c : ConditionStack) (f : Bool) : ConditionStack :=
  ⟨c.m_stack_size + 1,
    if c.m_first_false_pos == NO_FALSE && !f then c.m_stack_size else c.m_first_false_pos⟩

/-- `pop_back`; `none` where its `assert` fails. -/
def pop_back (c : ConditionStack) : Option ConditionStack :=
  if c.m_stack_size > 0 then
    let size := c.m_stack_size - 1
    some ⟨size, if c.m_first_false_pos == size then NO_FALSE else c.m_first_false_pos⟩
  else none

/-- `toggle_top`; `none` where its `assert` fails. Toggling a value other than
the first false one changes nothing that can be read. -/
def toggle_top (c : ConditionStack) : Option ConditionStack :=
  if c.m_stack_size > 0 then
    some (if c.m_first_false_pos == NO_FALSE then ⟨c.m_stack_size, c.m_stack_size - 1⟩
      else if c.m_first_false_pos == c.m_stack_size - 1 then ⟨c.m_stack_size, NO_FALSE⟩
      else c)
  else none

end ConditionStack

/-- An operation `EvalScript` makes on the condition stack: OP_IF and OP_NOTIF
push, OP_ELSE toggles, OP_ENDIF pops. -/
inductive CondOp
  | push (f : Bool)
  | pop
  | toggle
deriving DecidableEq

namespace ConditionStack

def apply (c : ConditionStack) : CondOp → Option ConditionStack
  | .push f => some (c.push_back f)
  | .pop => c.pop_back
  | .toggle => c.toggle_top

def run (c : ConditionStack) (ops : List CondOp) : Option ConditionStack := ops.foldlM apply c

end ConditionStack

/-- What an operation does to a `std::vector<bool>`; `toggle` negates the last
element. -/
def applyVec (v : List Bool) : CondOp → List Bool
  | .push f => v ++ [f]
  | .pop => v.dropLast
  | .toggle => v.dropLast ++ (v.getLast?.map (!·)).toList

def runVec (v : List Bool) (ops : List CondOp) : List Bool := ops.foldl applyVec v

/-- The position of the vector's first false value. -/
def firstFalse (v : List Bool) : Option Nat := v.findIdx? (· == false)

/-- The operations a vector admits for the stack to follow it: a push only
below `2^32 - 1` levels, where one more still fits the `uint32_t` size, and a
pop or a toggle, as `EvalScript` checks, only on a vector that is not empty. -/
def admits (v : List Bool) : CondOp → Bool
  | .push _ => v.length < 2 ^ 32 - 1
  | .pop | .toggle => !v.isEmpty

def admitsAll : List Bool → List CondOp → Bool
  | _, [] => true
  | v, op :: ops => admits v op && admitsAll (applyVec v op) ops

theorem admitsAll_take (v : List Bool) (ops : List CondOp) (n : Nat) (h : admitsAll v ops = true) :
    admitsAll v (ops.take n) = true := by
  induction ops generalizing v n with
  | nil => simp [admitsAll]
  | cons op ops ih =>
    cases n with
    | zero => rfl
    | succ n =>
      simp only [admitsAll, Bool.and_eq_true] at h
      simp only [List.take_succ_cons, admitsAll, h.1, ih _ _ h.2, Bool.and_self]

theorem firstFalse_append_singleton (v : List Bool) (b : Bool) :
    firstFalse (v ++ [b]) = (firstFalse v).or (if b then none else some v.length) := by
  cases b <;> simp [firstFalse]

theorem lt_length_of_firstFalse {v : List Bool} {i : Nat} (h : firstFalse v = some i) : i < v.length :=
  (List.findIdx?_eq_some_iff_findIdx_eq.mp h).1

theorem firstFalse_eq_none_iff {v : List Bool} : firstFalse v = none ↔ v.all id = true := by
  simp [firstFalse]

section Represents

open ConditionStack

variable {c : ConditionStack} {v : List Bool}

/-- The stack stands for the vector `v`: its size is `v`'s length, and its
first false position that of `v`'s first false value, or `NO_FALSE`. -/
structure Represents (c : ConditionStack) (v : List Bool) : Prop where
  size : c.m_stack_size.toNat = v.length
  first_false : c.m_first_false_pos = ((firstFalse v).map UInt32.ofNat).getD NO_FALSE

theorem represents_init : Represents init [] := ⟨rfl, rfl⟩

theorem ofNat_ne_NO_FALSE {i : Nat} (h : i < 2 ^ 32 - 1) : UInt32.ofNat i ≠ NO_FALSE := by
  intro hi
  have := congrArg UInt32.toNat hi
  simp [NO_FALSE] at this
  omega

theorem ofNat_ne_ofNat {i j : Nat} (hi : i < 2 ^ 32) (hj : j < 2 ^ 32) (h : i ≠ j) :
    UInt32.ofNat i ≠ UInt32.ofNat j := by
  intro hij
  have := congrArg UInt32.toNat hij
  simp only [UInt32.toNat_ofNat'] at this
  omega

theorem Represents.length_lt (h : Represents c v) : v.length < 2 ^ 32 :=
  h.size ▸ UInt32.toNat_lt _

theorem Represents.size_eq (h : Represents c v) : c.m_stack_size = UInt32.ofNat v.length := by
  rw [← h.size, UInt32.ofNat_toNat]

theorem Represents.first_false_of_some (h : Represents c v) {i : Nat} (hi : firstFalse v = some i) :
    c.m_first_false_pos = UInt32.ofNat i ∧ UInt32.ofNat i ≠ NO_FALSE := by
  have hlt := lt_length_of_firstFalse hi
  have hlen := h.length_lt
  exact ⟨by simp [h.first_false, hi], ofNat_ne_NO_FALSE (by omega)⟩

theorem Represents.empty_eq (h : Represents c v) : c.empty = v.isEmpty := by
  cases v with
  | nil => simp [empty, ← UInt32.toNat_inj, h.size]
  | cons b v => simp [empty, ← UInt32.toNat_inj, h.size]

theorem Represents.all_true_eq (h : Represents c v) : c.all_true = v.all id := by
  cases hf : firstFalse v with
  | none => simp [all_true, h.first_false, hf, Iff.mp firstFalse_eq_none_iff hf]
  | some i =>
    have hall : v.all id ≠ true := fun ha => by simp [Iff.mpr firstFalse_eq_none_iff ha] at hf
    obtain ⟨hpos, hne⟩ := h.first_false_of_some hf
    simp only [all_true, hpos, beq_eq_false_iff_ne.mpr hne]
    simpa using hall

theorem represents_push_back (h : Represents c v) (hv : v.length < 2 ^ 32 - 1) (f : Bool) :
    Represents (c.push_back f) (v ++ [f]) := by
  constructor
  · simp [push_back, h.size]
    omega
  · rw [firstFalse_append_singleton]
    cases hf : firstFalse v with
    | some i =>
      obtain ⟨hpos, hne⟩ := h.first_false_of_some hf
      simp [push_back, hpos, hne]
    | none => cases f <;> simp [push_back, h.first_false, hf, h.size_eq]

theorem Represents.size_sub_one {b : Bool} (h : Represents c (v ++ [b])) :
    0 < c.m_stack_size ∧ c.m_stack_size - 1 = UInt32.ofNat v.length := by
  have hlen : v.length + 1 < 2 ^ 32 := by simpa using h.length_lt
  have hsize : c.m_stack_size = UInt32.ofNat (v.length + 1) := by simpa using h.size_eq
  refine ⟨?_, by simp [hsize]⟩
  rw [hsize, UInt32.lt_iff_toNat_lt, UInt32.toNat_ofNat', Nat.mod_eq_of_lt hlen]
  simp

theorem represents_pop_back {b : Bool} (h : Represents c (v ++ [b])) :
    ∃ c', c.pop_back = some c' ∧ Represents c' v := by
  have hlen : v.length + 1 < 2 ^ 32 := by simpa using h.length_lt
  obtain ⟨hpos, htop⟩ := h.size_sub_one
  refine ⟨_, if_pos hpos, ⟨?_, ?_⟩⟩
  · show (c.m_stack_size - 1).toNat = v.length
    rw [htop, UInt32.toNat_ofNat', Nat.mod_eq_of_lt (by omega)]
  simp only [htop]
  have hff := h.first_false
  rw [firstFalse_append_singleton] at hff
  cases hf : firstFalse v with
  | some i =>
    -- a false value below the top stays the first one
    have hi := lt_length_of_firstFalse hf
    simp only [hf, Option.some_or, Option.map_some, Option.getD_some] at hff
    simp [hff, ofNat_ne_ofNat (by omega : i < 2 ^ 32) (by omega) (by omega : i ≠ v.length)]
  | none =>
    cases b with
    | false => simp [hf] at hff; simp [hff]
    | true =>
      simp [hf] at hff
      simp [hff, (ofNat_ne_NO_FALSE (by omega : v.length < 2 ^ 32 - 1)).symm]

theorem represents_toggle_top {b : Bool} (h : Represents c (v ++ [b])) :
    ∃ c', c.toggle_top = some c' ∧ Represents c' (v ++ [!b]) := by
  have hlen : v.length + 1 < 2 ^ 32 := by simpa using h.length_lt
  obtain ⟨hpos, htop⟩ := h.size_sub_one
  refine ⟨_, if_pos hpos, ?_⟩
  have hff := h.first_false
  rw [firstFalse_append_singleton] at hff
  rw [htop]
  cases hf : firstFalse v with
  | some i =>
    -- the first false value is below the top: nothing that can be read changes
    have hi := lt_length_of_firstFalse hf
    simp only [hf, Option.some_or, Option.map_some, Option.getD_some] at hff
    have hne := ofNat_ne_ofNat (by omega : i < 2 ^ 32) (by omega) (by omega : i ≠ v.length)
    simp only [hff, beq_eq_false_iff_ne.mpr (ofNat_ne_NO_FALSE (by omega : i < 2 ^ 32 - 1)),
      beq_eq_false_iff_ne.mpr hne, Bool.false_eq_true, if_false]
    exact ⟨by simpa using h.size, by simp [firstFalse_append_singleton, hf, hff]⟩
  | none =>
    have hne := ofNat_ne_NO_FALSE (by omega : v.length < 2 ^ 32 - 1)
    cases b with
    | false =>
      simp [hf] at hff
      simp only [hff, beq_eq_false_iff_ne.mpr hne, beq_self_eq_true, Bool.false_eq_true, if_false, if_true]
      exact ⟨by simpa using h.size, by simp [firstFalse_append_singleton, hf]⟩
    | true =>
      simp [hf] at hff
      simp only [hff, beq_self_eq_true, if_true]
      exact ⟨by simpa using h.size, by simp [firstFalse_append_singleton, hf]⟩

theorem represents_apply {op : CondOp} (h : Represents c v) (hop : admits v op = true) :
    ∃ c', c.apply op = some c' ∧ Represents c' (applyVec v op) := by
  cases op with
  | push f => exact ⟨_, rfl, represents_push_back h (by simpa [admits] using hop) f⟩
  | pop =>
    have hne : v ≠ [] := by simpa [admits] using hop
    obtain ⟨w, b, rfl⟩ : ∃ w b, v = w ++ [b] :=
      ⟨v.dropLast, v.getLast hne, (List.dropLast_append_getLast hne).symm⟩
    simpa [apply, applyVec] using represents_pop_back h
  | toggle =>
    have hne : v ≠ [] := by simpa [admits] using hop
    obtain ⟨w, b, rfl⟩ : ∃ w b, v = w ++ [b] :=
      ⟨v.dropLast, v.getLast hne, (List.dropLast_append_getLast hne).symm⟩
    simpa [apply, applyVec] using represents_toggle_top h

theorem represents_run {ops : List CondOp} (h : Represents c v) (hops : admitsAll v ops = true) :
    ∃ c', c.run ops = some c' ∧ Represents c' (runVec v ops) := by
  induction ops generalizing c v with
  | nil => exact ⟨c, rfl, h⟩
  | cons op ops ih =>
    simp only [admitsAll, Bool.and_eq_true] at hops
    obtain ⟨c₁, h₁, hr₁⟩ := represents_apply h hops.1
    obtain ⟨c', h', hr'⟩ := ih hr₁ hops.2
    refine ⟨c', ?_, hr'⟩
    simpa [run, List.foldlM_cons, h₁] using h'

/-- After every operation of a sequence the vector admits, the stack's
`empty()` and `all_true()` are the vector's, and its first false position is
the vector's first false index, or `NO_FALSE`. -/
theorem conditionStack_refines_vector (ops : List CondOp) (hops : admitsAll [] ops = true) (n : Nat) :
    ∃ c, init.run (ops.take n) = some c ∧
      c.empty = (runVec [] (ops.take n)).isEmpty ∧
      c.all_true = (runVec [] (ops.take n)).all id ∧
      c.m_first_false_pos = ((firstFalse (runVec [] (ops.take n))).map UInt32.ofNat).getD NO_FALSE := by
  obtain ⟨c, hrun, hrep⟩ := represents_run represents_init (admitsAll_take [] ops n hops)
  exact ⟨c, hrun, hrep.empty_eq, hrep.all_true_eq, hrep.first_false⟩

theorem conditionStack_refines_vector_of_if_else :
    admitsAll [] [.push true, .push false, .toggle, .pop, .push false] = true ∧
      ∃ c, init.run ([.push true, .push false, .toggle, .pop, .push false].take 3) = some c ∧
        c.empty = (runVec [] ([.push true, .push false, .toggle, .pop, .push false].take 3)).isEmpty ∧
        c.all_true = (runVec [] ([.push true, .push false, .toggle, .pop, .push false].take 3)).all id ∧
        c.m_first_false_pos = ((firstFalse (runVec []
          ([.push true, .push false, .toggle, .pop, .push false].take 3))).map UInt32.ofNat).getD NO_FALSE :=
  ⟨by decide, conditionStack_refines_vector _ (by decide) 3⟩

end Represents

section Wrap

open ConditionStack

theorem run_replicate_push_true (c : ConditionStack) (n : Nat) :
    c.run (List.replicate n (.push true)) = some ⟨c.m_stack_size + UInt32.ofNat n, c.m_first_false_pos⟩ := by
  induction n generalizing c with
  | zero => simp [run]
  | succ n ih =>
    rw [List.replicate_succ, run, List.foldlM_cons]
    simp only [apply, Option.bind_eq_bind, Option.bind_some]
    rw [← run, ih]
    simp [push_back, UInt32.add_assoc, UInt32.add_comm 1]

theorem runVec_replicate_push (v : List Bool) (n : Nat) (b : Bool) :
    runVec v (List.replicate n (.push b)) = v ++ List.replicate n b := by
  induction n generalizing v with
  | zero => simp [runVec]
  | succ n ih =>
    simp only [runVec] at ih ⊢
    rw [List.replicate_succ', List.foldl_append, ih, List.replicate_succ']
    simp [applyVec]

/-- The `(2^32)`-th level wraps the `uint32_t` size to 0 and, false, is
recorded at the position `2^32 - 1`, which is `NO_FALSE`: the stack is new
again, empty and all true, while the vector holds `2^32` values and a false
one. -/
theorem conditionStack_wraps_at_uint32_max :
    init.run (List.replicate (2 ^ 32 - 1) (.push true) ++ [.push false]) = some init ∧
      init.empty = true ∧ init.all_true = true ∧
      (runVec [] (List.replicate (2 ^ 32 - 1) (.push true) ++ [.push false])).isEmpty = false ∧
      (runVec [] (List.replicate (2 ^ 32 - 1) (.push true) ++ [.push false])).all id = false := by
  have hrun : init.run (List.replicate (2 ^ 32 - 1) (.push true) ++ [.push false]) = some init := by
    rw [run, List.foldlM_append, ← run, run_replicate_push_true]
    show some (push_back ⟨0 + UInt32.ofNat (2 ^ 32 - 1), NO_FALSE⟩ false) = some init
    rfl
  -- the vector is evaluated through the lemma: never unfold the 2^32 - 1 pushes
  have hvec : runVec [] (List.replicate (2 ^ 32 - 1) (.push true) ++ [.push false]) =
      List.replicate (2 ^ 32 - 1) true ++ [false] := by
    have h := runVec_replicate_push [] (2 ^ 32 - 1) true
    simp only [runVec] at h ⊢
    rw [List.foldl_append, h]
    simp only [List.foldl_cons, List.foldl_nil, applyVec, List.nil_append]
  refine ⟨hrun, rfl, rfl, ?_, ?_⟩
  · simp only [hvec, List.isEmpty_eq_false_iff, ne_eq, List.append_eq_nil_iff, List.cons_ne_nil,
      and_false, not_false_eq_true]
  · simp only [hvec, List.all_append, List.all_cons, List.all_nil, id, Bool.false_and, Bool.and_false]

end Wrap

end YuPost.Script
