import Mathlib.Order.Basic

/-! Walks up a forest given by its parent function: the node `n` parent steps
above another, the ancestors of a node, and, under a depth function that counts
the steps to a root, the last common ancestor of two nodes, the deepest node
above both. The two ways a walk finds it (the first node of one path that lies
on the other, and two paths of one depth walked in step until they meet) are
stated here once. -/

namespace YuPost.Lib

section Walk

variable {ι : Type} (parent : ι → Option ι)

/-- The node `n` parent steps above `i`, where the path is that long. -/
def walkUp : Nat → ι → Option ι
  | 0, i => some i
  | n + 1, i => (parent i).bind (walkUp n)

@[simp] theorem walkUp_zero (i : ι) : walkUp parent 0 i = some i := rfl

theorem walkUp_succ (n : Nat) (i : ι) : walkUp parent (n + 1) i = (parent i).bind (walkUp parent n) := rfl

theorem walkUp_add (m n : Nat) (i : ι) :
    walkUp parent (m + n) i = (walkUp parent m i).bind (walkUp parent n) := by
  induction m generalizing i with
  | zero => simp
  | succ m ih =>
    rw [Nat.add_right_comm, walkUp_succ, walkUp_succ]
    cases parent i <;> simp [ih]

theorem walkUp_succ' (n : Nat) (i : ι) : walkUp parent (n + 1) i = (walkUp parent n i).bind parent := by
  rw [walkUp_add]
  cases walkUp parent n i with
  | none => rfl
  | some j => cases h : parent j <;> simp [walkUp_succ, h]

/-- `j` is `i` or lies above it. -/
def IsAncestor (j i : ι) : Prop := ∃ n, walkUp parent n i = some j

/-- `x` lies above both `a` and `b`. -/
def Common (a b x : ι) : Prop := IsAncestor parent x a ∧ IsAncestor parent x b

theorem isAncestor_trans {x j i : ι} {n : Nat} (hx : IsAncestor parent x j) (hj : walkUp parent n i = some j) :
    IsAncestor parent x i := by
  obtain ⟨m, hm⟩ := hx
  exact ⟨n + m, by rw [walkUp_add, hj, Option.bind_some, hm]⟩

theorem common_comm {a b x : ι} : Common parent a b x ↔ Common parent b a x := And.comm

end Walk

section Depth

variable {ι : Type} {parent : ι → Option ι} {depth : ι → Nat}

/-- `depth` counts the parent steps from a node to its root. -/
structure IsDepth (parent : ι → Option ι) (depth : ι → Nat) : Prop where
  root : ∀ i, parent i = none → depth i = 0
  step : ∀ i j, parent i = some j → depth i = depth j + 1

/-- The last common ancestor of `a` and `b`: above both, and as deep as every
node above both. -/
structure IsLastCommon (parent : ι → Option ι) (depth : ι → Nat) (a b j : ι) : Prop where
  common : Common parent a b j
  deepest : ∀ x, Common parent a b x → depth x ≤ depth j

theorem isLastCommon_congr {a b a' b' j : ι} (h : ∀ x, Common parent a b x ↔ Common parent a' b' x) :
    IsLastCommon parent depth a b j ↔ IsLastCommon parent depth a' b' j := by
  constructor
  · rintro ⟨hj, hdeep⟩
    exact ⟨(h j).mp hj, fun x hx => hdeep x ((h x).mpr hx)⟩
  · rintro ⟨hj, hdeep⟩
    exact ⟨(h j).mpr hj, fun x hx => hdeep x ((h x).mp hx)⟩

variable (hd : IsDepth parent depth)
include hd

theorem depth_walkUp {n : Nat} {i j : ι} (h : walkUp parent n i = some j) : depth j + n = depth i := by
  induction n generalizing i with
  | zero => cases h; rfl
  | succ n ih =>
    rw [walkUp_succ] at h
    cases hp : parent i with
    | none => simp [hp] at h
    | some k =>
      rw [hp, Option.bind_some] at h
      have := ih h
      have := hd.step i k hp
      omega

theorem depth_le_of_isAncestor {i j : ι} (h : IsAncestor parent j i) : depth j ≤ depth i := by
  obtain ⟨n, hn⟩ := h
  have := depth_walkUp hd hn
  omega

theorem walkUp_isSome {n : Nat} {i : ι} (h : n ≤ depth i) : (walkUp parent n i).isSome := by
  induction n generalizing i with
  | zero => rfl
  | succ n ih =>
    rw [walkUp_succ]
    cases hp : parent i with
    | none => have := hd.root i hp; omega
    | some k =>
      have := hd.step i k hp
      simpa using ih (i := k) (by omega)

theorem isSome_walkUp_iff {n : Nat} {i : ι} : (walkUp parent n i).isSome ↔ n ≤ depth i := by
  constructor
  · intro h
    obtain ⟨j, hj⟩ := Option.isSome_iff_exists.mp h
    have := depth_walkUp hd hj
    omega
  · exact walkUp_isSome hd

theorem isAncestor_iff_of_walkUp {n : Nat} {a a' x : ι} (h : walkUp parent n a = some a')
    (hx : depth x ≤ depth a') : IsAncestor parent x a ↔ IsAncestor parent x a' := by
  constructor
  · rintro ⟨m, hm⟩
    have hdm := depth_walkUp hd hm
    have hdn := depth_walkUp hd h
    have hsplit : walkUp parent (n + (m - n)) a = some x := by rwa [Nat.add_sub_cancel' (by omega)]
    rw [walkUp_add, h, Option.bind_some] at hsplit
    exact ⟨m - n, hsplit⟩
  · intro hx'
    exact isAncestor_trans parent hx' h

theorem common_iff_of_walkUp {n : Nat} {a a' b x : ι} (h : walkUp parent n a = some a')
    (hb : depth b ≤ depth a') : Common parent a' b x ↔ Common parent a b x := by
  constructor
  · rintro ⟨hxa, hxb⟩
    exact ⟨isAncestor_trans parent hxa h, hxb⟩
  · rintro ⟨hxa, hxb⟩
    have := depth_le_of_isAncestor hd hxb
    exact ⟨(isAncestor_iff_of_walkUp hd h (by omega)).mp hxa, hxb⟩

theorem isLastCommon_of_first {a b j : ι} {k : Nat} (hk : walkUp parent k a = some j)
    (hjb : IsAncestor parent j b)
    (hfirst : ∀ m < k, ∀ y, walkUp parent m a = some y → ¬ IsAncestor parent y b) :
    IsLastCommon parent depth a b j := by
  refine ⟨⟨⟨k, hk⟩, hjb⟩, ?_⟩
  rintro x ⟨⟨m, hm⟩, hxb⟩
  -- the walk to `x` is no shorter than the one to `j`, as none shorter reaches above `b`
  have hkm : k ≤ m := Nat.le_of_not_lt fun hlt => hfirst m hlt x hm hxb
  have := depth_walkUp hd hm
  have := depth_walkUp hd hk
  omega

omit hd in
theorem not_common_of_first {a b : ι} {k : Nat} (hk : walkUp parent k a = none)
    (hfirst : ∀ m < k, ∀ y, walkUp parent m a = some y → ¬ IsAncestor parent y b) (x : ι) :
    ¬ Common parent a b x := by
  rintro ⟨⟨m, hm⟩, hxb⟩
  by_cases hlt : m < k
  · exact hfirst m hlt x hm hxb
  · rw [← Nat.add_sub_cancel' (Nat.le_of_not_lt hlt), walkUp_add, hk] at hm
    cases hm

theorem not_isAncestor_of_walkUp_ne {a b y : ι} {m : Nat} (hab : depth a = depth b)
    (hm : walkUp parent m a = some y) (hne : walkUp parent m a ≠ walkUp parent m b) :
    ¬ IsAncestor parent y b := by
  rintro ⟨n, hn⟩
  have := depth_walkUp hd hm
  have := depth_walkUp hd hn
  obtain rfl : m = n := by omega
  exact hne (hm.trans hn.symm)

theorem isLastCommon_of_meet {a b j : ι} {k : Nat} (hab : depth a = depth b)
    (hka : walkUp parent k a = some j) (hkb : walkUp parent k b = some j)
    (hfirst : ∀ m < k, walkUp parent m a ≠ walkUp parent m b) : IsLastCommon parent depth a b j :=
  isLastCommon_of_first hd hka ⟨k, hkb⟩ fun m hm _ hy =>
    not_isAncestor_of_walkUp_ne hd hab hy (hfirst m hm)

theorem not_common_of_meet {a b : ι} {k : Nat} (hab : depth a = depth b)
    (hka : walkUp parent k a = none) (hfirst : ∀ m < k, walkUp parent m a ≠ walkUp parent m b) (x : ι) :
    ¬ Common parent a b x :=
  not_common_of_first hka (fun m hm _ hy => not_isAncestor_of_walkUp_ne hd hab hy (hfirst m hm)) x

end Depth

end YuPost.Lib
