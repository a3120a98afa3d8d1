import Mathlib.Data.Nat.Log
import Mathlib.Data.Nat.Pairing

/-! `ComputeMerkleRoot` of `consensus/merkle.cpp`, as the production loop runs it:
the whole level is hashed in place by `SHA256D64` over the `std::vector<uint256>`,
then the vector is shrunk. It is compared with the recursive reference root, and
the mutation flag (the CVE-2012-2459 defence) is shown to catch every root
collision between different leaf lists. The double-SHA256 of two 32-byte nodes
is the parameter `hash`; `default` stands for the null `uint256()`. -/

namespace YuPost.Consensus.Merkle

variable {α : Type}

/-- One level of the reference tree: adjacent nodes are hashed in pairs, the
last node of an odd level with itself. -/
def pairLevel (hash : α → α → α) : List α → List α
  | [] => []
  | [a] => [hash a a]
  | a :: b :: t => hash a b :: pairLevel hash t

theorem length_pairLevel (hash : α → α → α) (l : List α) :
    (pairLevel hash l).length = (l.length + 1) / 2 := by
  fun_induction pairLevel hash l with
  | case1 => simp
  | case2 a => simp
  | case3 a b t ih => simp only [List.length_cons, ih]; omega

/-- The recursive reference root; the null hash for the empty list. -/
def merkleRootRef [Inhabited α] (hash : α → α → α) : List α → α
  | [] => default
  | [a] => a
  | a :: b :: t => merkleRootRef hash (pairLevel hash (a :: b :: t))
termination_by l => l.length
decreasing_by
  rw [length_pairLevel]
  simp only [List.length_cons]
  omega

/-- The scan `for (pos = 0; pos + 1 < size; pos += 2)` of one level. -/
def levelMutated [DecidableEq α] : List α → Bool
  | a :: b :: t => a == b || levelMutated t
  | _ => false

/-- The mutation flag of the reference: some level has an equal pair. -/
def mutatedRef [DecidableEq α] (hash : α → α → α) : List α → Bool
  | [] => false
  | [_] => false
  | a :: b :: t =>
    levelMutated (a :: b :: t) || mutatedRef hash (pairLevel hash (a :: b :: t))
termination_by l => l.length
decreasing_by
  rw [length_pairLevel]
  simp only [List.length_cons]
  omega

/-- `SHA256D64(hashes[0].begin(), hashes[0].begin(), blocks)`: block `i` of the
buffer is overwritten with the hash of blocks `2i` and `2i+1`, for `i` upwards. -/
def sha256D64InPlace [Inhabited α] (hash : α → α → α) (hashes : Array α) : Nat → Array α
  | 0 => hashes
  | i + 1 =>
    let done := sha256D64InPlace hash hashes i
    done.set! i (hash done[2 * i]! done[2 * i + 1]!)

/-- One pass of `while (hashes.size() > 1)`; the flag is the local `mutation`,
and `checkMutation` says whether a `mutated` pointer was passed. -/
def merkleLevel [Inhabited α] [DecidableEq α] (hash : α → α → α) (checkMutation : Bool)
    (st : Array α × Bool) : Array α × Bool :=
  let mutation := st.2 || (checkMutation && levelMutated st.1.toList)
  let hashes := if st.1.size &&& 1 ≠ 0 then st.1.push st.1.back! else st.1
  let hashes := sha256D64InPlace hash hashes (hashes.size / 2)
  (hashes.shrink (hashes.size / 2), mutation)

/-- The `while` loop with a fuel bound; `hashes.size()` passes always suffice
(`merkleLoop_spec`). -/
def merkleLoop [Inhabited α] [DecidableEq α] (hash : α → α → α) (checkMutation : Bool) :
    Nat → Array α × Bool → Array α × Bool
  | 0, st => st
  | fuel + 1, st =>
    if st.1.size > 1 then
      merkleLoop hash checkMutation fuel (merkleLevel hash checkMutation st)
    else st

/-- `ComputeMerkleRoot(hashes, mutated)`: the root and the value written to
`*mutated`. -/
def computeMerkleRoot [Inhabited α] [DecidableEq α] (hash : α → α → α) (hashes : Array α)
    (mutated : Bool) : α × Bool :=
  let st := merkleLoop hash mutated hashes.size (hashes, false)
  (if st.1.size = 0 then default else st.1[0]!, st.2)

theorem size_sha256D64InPlace [Inhabited α] (hash : α → α → α) (hashes : Array α) (n : Nat) :
    (sha256D64InPlace hash hashes n).size = hashes.size := by
  induction n with
  | zero => rfl
  | succ n ih => simp [sha256D64InPlace, ih]

theorem getElem_sha256D64InPlace [Inhabited α] (hash : α → α → α) (hashes : Array α) (n : Nat)
    (hn : 2 * n ≤ hashes.size) (i : Nat) (hi : i < (sha256D64InPlace hash hashes n).size) :
    (sha256D64InPlace hash hashes n)[i] =
      if i < n then hash hashes[2 * i]! hashes[2 * i + 1]! else hashes[i]! := by
  induction n generalizing i with
  | zero =>
    rw [size_sha256D64InPlace] at hi
    simp [sha256D64InPlace, getElem!_pos, hi]
  | succ n ih =>
    have hsize := size_sha256D64InPlace hash hashes n
    have hn' : 2 * n ≤ hashes.size := by omega
    have h2n : 2 * n < (sha256D64InPlace hash hashes n).size := by omega
    have h2n1 : 2 * n + 1 < (sha256D64InPlace hash hashes n).size := by omega
    have hi' : i < (sha256D64InPlace hash hashes n).size := by
      rw [size_sha256D64InPlace] at hi ⊢; exact hi
    simp only [sha256D64InPlace, Array.set!_eq_setIfInBounds]
    rw [Array.getElem_setIfInBounds hi', ih hn' i hi']
    rw [getElem!_pos _ (2 * n) h2n, getElem!_pos _ (2 * n + 1) h2n1,
      ih hn' (2 * n) h2n, ih hn' (2 * n + 1) h2n1]
    by_cases hin : n = i
    · subst hin
      have h1 : ¬ 2 * n < n := by omega
      have h2 : ¬ 2 * n + 1 < n := by omega
      simp [h1, h2]
    · have : i < n + 1 ↔ i < n := by omega
      simp only [hin, this, if_false]

theorem getElem_pairLevel (hash : α → α → α) (l : List α) (i : Nat)
    (hi : i < (pairLevel hash l).length) (h : 2 * i + 1 < l.length) :
    (pairLevel hash l)[i] = hash l[2 * i] l[2 * i + 1] := by
  fun_induction pairLevel hash l generalizing i with
  | case1 => simp at h
  | case2 a => simp at h
  | case3 a b t ih =>
    cases i with
    | zero => simp
    | succ i =>
      simp only [List.length_cons] at h
      simp only [List.getElem_cons_succ]
      rw [ih i (by simp only [List.length_cons] at hi; omega) (by omega)]
      congr 1

theorem getElem_pairLevel_last (hash : α → α → α) (l : List α) (i : Nat)
    (hi : i < (pairLevel hash l).length) (h : l.length = 2 * i + 1) :
    (pairLevel hash l)[i] = hash l[2 * i] l[2 * i] := by
  fun_induction pairLevel hash l generalizing i with
  | case1 => simp at h
  | case2 a =>
    have : i = 0 := by simp at h; omega
    subst this
    simp
  | case3 a b t ih =>
    cases i with
    | zero => simp at h
    | succ i =>
      simp only [List.length_cons] at h
      simp only [List.getElem_cons_succ]
      rw [ih i (by simp only [List.length_cons] at hi; omega) (by omega)]
      congr 1

theorem toList_shrink_sha256D64InPlace [Inhabited α] (hash : α → α → α) (hashes : Array α)
    (m : Nat) (hm : 2 * m ≤ hashes.size) (i : Nat) (him : i < m)
    (hi : i < ((sha256D64InPlace hash hashes m).shrink m).toList.length) :
    ((sha256D64InPlace hash hashes m).shrink m).toList[i] =
      hash hashes[2 * i] hashes[2 * i + 1] := by
  simp only [Array.toList_shrink, List.getElem_take, Array.getElem_toList]
  rw [getElem_sha256D64InPlace hash hashes m hm i (by rw [size_sha256D64InPlace]; omega),
    if_pos him, getElem!_pos hashes (2 * i) (by omega),
    getElem!_pos hashes (2 * i + 1) (by omega)]

theorem pairLevel_of_even [Inhabited α] (hash : α → α → α) (hashes : Array α) (m : Nat)
    (hm : hashes.size = 2 * m) :
    ((sha256D64InPlace hash hashes m).shrink m).toList = pairLevel hash hashes.toList := by
  apply List.ext_getElem
  · simp only [Array.toList_shrink, List.length_take, Array.length_toList,
      size_sha256D64InPlace, length_pairLevel]
    omega
  · intro i h1 h2
    have hi : i < m := by
      simp only [Array.toList_shrink, List.length_take, Array.length_toList,
        size_sha256D64InPlace] at h1
      omega
    rw [toList_shrink_sha256D64InPlace hash hashes m (by omega) i hi h1,
      getElem_pairLevel hash _ i h2 (by simp; omega)]
    simp

theorem pairLevel_of_odd [Inhabited α] (hash : α → α → α) (hashes : Array α) (m : Nat)
    (hm : hashes.size = 2 * m + 1) :
    ((sha256D64InPlace hash (hashes.push hashes.back!) (m + 1)).shrink (m + 1)).toList =
      pairLevel hash hashes.toList := by
  apply List.ext_getElem
  · simp only [Array.toList_shrink, List.length_take, Array.length_toList,
      size_sha256D64InPlace, length_pairLevel, Array.size_push]
    omega
  · intro i h1 h2
    have hi : i < m + 1 := by
      simp only [Array.toList_shrink, List.length_take, Array.length_toList,
        size_sha256D64InPlace, Array.size_push] at h1
      omega
    rw [toList_shrink_sha256D64InPlace hash _ (m + 1) (by simp; omega) i hi h1]
    rcases Nat.lt_or_ge i m with him | him
    · rw [getElem_pairLevel hash _ i h2 (by simp; omega)]
      simp [Array.getElem_push, show 2 * i < hashes.size by omega,
        show 2 * i + 1 < hashes.size by omega]
    · have him : i = m := by omega
      subst him
      rw [getElem_pairLevel_last hash _ i h2 (by simp; omega)]
      simp [Array.getElem_push, hm, Array.back!, getElem!_pos]

theorem toList_merkleLevel [Inhabited α] [DecidableEq α] (hash : α → α → α) (c : Bool)
    (st : Array α × Bool) :
    (merkleLevel hash c st).1.toList = pairLevel hash st.1.toList := by
  obtain ⟨hashes, mutation⟩ := st
  simp only [merkleLevel, Nat.and_one_is_mod]
  rcases Nat.mod_two_eq_zero_or_one hashes.size with hpar | hpar
  · have hm : hashes.size = 2 * (hashes.size / 2) := by omega
    simp only [hpar, ne_eq, not_true_eq_false, if_false, size_sha256D64InPlace]
    exact pairLevel_of_even hash hashes _ hm
  · have hm : hashes.size = 2 * (hashes.size / 2) + 1 := by omega
    have hsz : (hashes.size + 1) / 2 = hashes.size / 2 + 1 := by omega
    simp only [hpar, ne_eq, Nat.one_ne_zero, not_false_eq_true, if_true, size_sha256D64InPlace,
      Array.size_push, hsz]
    exact pairLevel_of_odd hash hashes _ hm

theorem snd_merkleLevel [Inhabited α] [DecidableEq α] (hash : α → α → α) (c : Bool)
    (st : Array α × Bool) :
    (merkleLevel hash c st).2 = (st.2 || (c && levelMutated st.1.toList)) := rfl

theorem merkleRootRef_pairLevel [Inhabited α] (hash : α → α → α) (l : List α)
    (hl : 2 ≤ l.length) : merkleRootRef hash (pairLevel hash l) = merkleRootRef hash l := by
  match l, hl with
  | a :: b :: t, _ => rw [merkleRootRef]

theorem mutatedRef_pairLevel [DecidableEq α] (hash : α → α → α) (l : List α)
    (hl : 2 ≤ l.length) :
    mutatedRef hash l = (levelMutated l || mutatedRef hash (pairLevel hash l)) := by
  match l, hl with
  | a :: b :: t, _ => rw [mutatedRef]

theorem merkleRootRef_of_length_le_one [Inhabited α] [DecidableEq α] (hash : α → α → α)
    (l : List α) (hl : l.length ≤ 1) :
    (if l.length = 0 then [] else [merkleRootRef hash l]) = l ∧ mutatedRef hash l = false := by
  match l, hl with
  | [], _ => simp [mutatedRef]
  | [a], _ => simp [merkleRootRef, mutatedRef]

theorem merkleLoop_spec [Inhabited α] [DecidableEq α] (hash : α → α → α) (c : Bool)
    (fuel : Nat) (st : Array α × Bool) (hfuel : st.1.size ≤ fuel) :
    (merkleLoop hash c fuel st).1.toList =
      (if st.1.size = 0 then [] else [merkleRootRef hash st.1.toList]) ∧
    (merkleLoop hash c fuel st).2 = (st.2 || (c && mutatedRef hash st.1.toList)) := by
  induction fuel generalizing st with
  | zero =>
    have h0 : st.1.size = 0 := by omega
    have h0' : st.1.toList = [] := by simpa using h0
    simp [merkleLoop, h0, h0', mutatedRef]
  | succ fuel ih =>
    by_cases hsize : st.1.size > 1
    · have hlen : 2 ≤ st.1.toList.length := by simp only [Array.length_toList]; omega
      have hnext : (merkleLevel hash c st).1.size ≤ fuel := by
        rw [← Array.length_toList, toList_merkleLevel, length_pairLevel]
        simp only [Array.length_toList]
        omega
      obtain ⟨ih1, ih2⟩ := ih (merkleLevel hash c st) hnext
      simp only [merkleLoop, hsize, if_true]
      refine ⟨?_, ?_⟩
      · rw [ih1, ← Array.length_toList, toList_merkleLevel, length_pairLevel,
          merkleRootRef_pairLevel hash _ hlen]
        simp only [Array.length_toList]
        have : ¬ (st.1.size + 1) / 2 = 0 := by omega
        have : ¬ st.1.size = 0 := by omega
        simp [*]
      · rw [ih2, toList_merkleLevel, snd_merkleLevel, mutatedRef_pairLevel hash _ hlen]
        cases c <;> simp [Bool.or_assoc]
    · have hle : st.1.toList.length ≤ 1 := by simp only [Array.length_toList]; omega
      obtain ⟨h1, h2⟩ := merkleRootRef_of_length_le_one hash _ hle
      simp only [merkleLoop, hsize, if_false]
      simp only [Array.length_toList] at h1
      exact ⟨h1.symm, by simp [h2]⟩

theorem computeMerkleRoot_eq_ref [Inhabited α] [DecidableEq α] (hash : α → α → α)
    (hashes : Array α) (mutated : Bool) :
    computeMerkleRoot hash hashes mutated =
      (merkleRootRef hash hashes.toList, mutated && mutatedRef hash hashes.toList) := by
  obtain ⟨h1, h2⟩ := merkleLoop_spec hash mutated hashes.size (hashes, false) le_rfl
  simp only [computeMerkleRoot, h2, Bool.false_or]
  congr 1
  by_cases h0 : hashes.size = 0
  · have : hashes.toList = [] := by simpa using h0
    have hs : (merkleLoop hash mutated hashes.size (hashes, false)).1.size = 0 := by
      rw [← Array.length_toList, h1]; simp [h0]
    simp [hs, this, merkleRootRef]
  · have hs : (merkleLoop hash mutated hashes.size (hashes, false)).1.size = 1 := by
      rw [← Array.length_toList, h1]; simp [h0]
    rw [if_neg (by omega), getElem!_pos _ 0 (by omega), ← Array.getElem_toList]
    simp only [h1, h0]
    simp

-- The duplicated tail of the source comment: `[1,2,3]` and `[1,2,3,3]` share a root.
example : (computeMerkleRoot (fun a b => 2 * Nat.pair a b + 1) #[2, 4, 6] true).1 =
    (computeMerkleRoot (fun a b => 2 * Nat.pair a b + 1) #[2, 4, 6, 6] true).1 := by decide


/-- The pair hash of the model is injective. -/
def PairHashInjective (hash : α → α → α) : Prop :=
  ∀ a b c d, hash a b = hash c d → a = c ∧ b = d

/-- `x` is built from leaves (values outside the image of `hash`) by `k`
rounds of pair hashing. -/
inductive Height (hash : α → α → α) : α → Nat → Prop
  | leaf (x : α) : (∀ a b, hash a b ≠ x) → Height hash x 0
  | node (a b : α) (k : Nat) : Height hash a k → Height hash b k → Height hash (hash a b) (k + 1)

theorem Height.unique {hash : α → α → α} (hinj : PairHashInjective hash) {x : α} {j : Nat}
    (hj : Height hash x j) : ∀ {y : α} {k : Nat}, Height hash y k → x = y → j = k := by
  induction hj with
  | leaf x hx =>
    intro y k hk hxy
    cases hk with
    | leaf => rfl
    | node a b k _ _ => exact absurd hxy.symm (hx a b)
  | node a b j _ _ iha _ =>
    intro y k hk hxy
    cases hk with
    | leaf y hy => exact absurd hxy (hy a b)
    | node a' b' k ha' _ =>
      obtain ⟨rfl, rfl⟩ := hinj a b a' b' hxy
      rw [iha ha' rfl]

theorem height_pairLevel {hash : α → α → α} {k : Nat} (l : List α)
    (hl : ∀ x ∈ l, Height hash x k) : ∀ y ∈ pairLevel hash l, Height hash y (k + 1) := by
  fun_induction pairLevel hash l with
  | case1 => simp
  | case2 a =>
    have ha := hl a (by simp)
    simpa using Height.node a a k ha ha
  | case3 a b t ih =>
    intro y hy
    simp only [List.mem_cons] at hy
    rcases hy with rfl | hy
    · exact Height.node a b k (hl a (by simp)) (hl b (by simp))
    · exact ih (fun x hx => hl x (by simp [hx])) y hy

theorem height_merkleRootRef [Inhabited α] {hash : α → α → α} {k : Nat} (l : List α)
    (hne : l ≠ []) (hl : ∀ x ∈ l, Height hash x k) :
    Height hash (merkleRootRef hash l) (k + Nat.clog 2 l.length) := by
  fun_induction merkleRootRef hash l generalizing k with
  | case1 => exact absurd rfl hne
  | case2 a => simpa [merkleRootRef, Nat.clog_one_right] using hl a (by simp)
  | case3 a b t ih =>
    have hpl : pairLevel hash (a :: b :: t) ≠ [] := by simp [pairLevel]
    have hrec := ih hpl (height_pairLevel _ hl)
    have hclog : Nat.clog 2 (a :: b :: t).length =
        Nat.clog 2 (pairLevel hash (a :: b :: t)).length + 1 := by
      rw [length_pairLevel, Nat.clog_of_two_le (by decide) (by simp),
        show (a :: b :: t).length + 2 - 1 = (a :: b :: t).length + 1 by omega]
    rw [hclog, ← Nat.add_assoc, Nat.add_right_comm]
    exact hrec

theorem pairLevel_injective [DecidableEq α] {hash : α → α → α} (hinj : PairHashInjective hash)
    (l₁ l₂ : List α) (h₁ : levelMutated l₁ = false) (h₂ : levelMutated l₂ = false)
    (h : pairLevel hash l₁ = pairLevel hash l₂) : l₁ = l₂ := by
  fun_induction pairLevel hash l₁ generalizing l₂ with
  | case1 =>
    match l₂ with
    | [] => rfl
    | [_] => simp [pairLevel] at h
    | _ :: _ :: _ => simp [pairLevel] at h
  | case2 a =>
    match l₂ with
    | [] => simp [pairLevel] at h
    | [c] =>
      simp only [pairLevel, List.cons.injEq, and_true] at h
      rw [(hinj a a c c h).1]
    | c :: d :: t =>
      simp only [pairLevel, List.cons.injEq] at h
      obtain ⟨rfl, rfl⟩ := hinj a a c d h.1
      simp [levelMutated] at h₂
  | case3 a b t ih =>
    match l₂ with
    | [] => simp [pairLevel] at h
    | [c] =>
      simp only [pairLevel, List.cons.injEq] at h
      obtain ⟨rfl, rfl⟩ := hinj a b c c h.1
      simp [levelMutated] at h₁
    | c :: d :: t' =>
      simp only [pairLevel, List.cons.injEq] at h
      obtain ⟨rfl, rfl⟩ := hinj a b c d h.1
      simp only [levelMutated, Bool.or_eq_false_iff] at h₁ h₂
      rw [ih t' h₁.2 h₂.2 h.2]

theorem eq_of_merkleRootRef_eq [Inhabited α] [DecidableEq α] {hash : α → α → α}
    (hinj : PairHashInjective hash) (d : Nat) :
    ∀ l₁ l₂ : List α, l₁ ≠ [] → l₂ ≠ [] →
      Nat.clog 2 l₁.length = d → Nat.clog 2 l₂.length = d →
      mutatedRef hash l₁ = false → mutatedRef hash l₂ = false →
      merkleRootRef hash l₁ = merkleRootRef hash l₂ → l₁ = l₂ := by
  induction d with
  | zero =>
    intro l₁ l₂ hne₁ hne₂ hd₁ hd₂ _ _ hroot
    match l₁, l₂, hne₁, hne₂ with
    | [a], [c], _, _ => simpa [merkleRootRef] using hroot
    | _ :: _ :: t, _, _, _ =>
      have := Nat.clog_pos (b := 2) (by decide) (show 1 < (t.length + 1 + 1) by omega)
      simp only [List.length_cons] at hd₁
      omega
    | _, _ :: _ :: t, _, _ =>
      have := Nat.clog_pos (b := 2) (by decide) (show 1 < (t.length + 1 + 1) by omega)
      simp only [List.length_cons] at hd₂
      omega
  | succ d ih =>
    intro l₁ l₂ hne₁ hne₂ hd₁ hd₂ hm₁ hm₂ hroot
    have hlen : ∀ l : List α, Nat.clog 2 l.length = d + 1 → 2 ≤ l.length := by
      intro l hl
      by_contra hlt
      rw [Nat.clog_of_right_le_one (by omega)] at hl
      omega
    have hlen₁ := hlen l₁ hd₁
    have hlen₂ := hlen l₂ hd₂
    have hdepth : ∀ l : List α, 2 ≤ l.length → Nat.clog 2 l.length = d + 1 →
        Nat.clog 2 (pairLevel hash l).length = d := by
      intro l hl hd
      rw [Nat.clog_of_two_le (by decide) hl] at hd
      rw [length_pairLevel, show l.length + 1 = l.length + 2 - 1 by omega]
      omega
    rw [mutatedRef_pairLevel hash _ hlen₁, Bool.or_eq_false_iff] at hm₁
    rw [mutatedRef_pairLevel hash _ hlen₂, Bool.or_eq_false_iff] at hm₂
    rw [← merkleRootRef_pairLevel hash _ hlen₁, ← merkleRootRef_pairLevel hash _ hlen₂] at hroot
    have hpair := ih (pairLevel hash l₁) (pairLevel hash l₂)
      (by rw [← List.length_pos_iff, length_pairLevel]; omega)
      (by rw [← List.length_pos_iff, length_pairLevel]; omega)
      (hdepth l₁ hlen₁ hd₁) (hdepth l₂ hlen₂ hd₂) hm₁.2 hm₂.2 hroot
    exact pairLevel_injective hinj l₁ l₂ hm₁.1 hm₂.1 hpair


/-- CVE-2012-2459 on the reference: two different non-empty leaf lists with
one root, under an injective pair hash whose image avoids the leaves, cannot
both pass the mutation scan. -/
theorem mutatedRef_of_root_collision [Inhabited α] [DecidableEq α] {hash : α → α → α}
    (hinj : PairHashInjective hash) (l₁ l₂ : List α) (hne₁ : l₁ ≠ []) (hne₂ : l₂ ≠ [])
    (hleaves : ∀ x ∈ l₁ ++ l₂, ∀ a b, hash a b ≠ x) (hne : l₁ ≠ l₂)
    (hroot : merkleRootRef hash l₁ = merkleRootRef hash l₂) :
    mutatedRef hash l₁ = true ∨ mutatedRef hash l₂ = true := by
  by_contra hnot
  simp only [not_or, Bool.not_eq_true] at hnot
  have hh₁ := height_merkleRootRef (k := 0) l₁ hne₁
    (fun x hx => Height.leaf x (hleaves x (by simp [hx])))
  have hh₂ := height_merkleRootRef (k := 0) l₂ hne₂
    (fun x hx => Height.leaf x (hleaves x (by simp [hx])))
  have hdepth := Height.unique hinj hh₁ hh₂ hroot
  simp only [Nat.zero_add] at hdepth
  exact hne (eq_of_merkleRootRef_eq hinj _ l₁ l₂ hne₁ hne₂ rfl hdepth.symm
    hnot.1 hnot.2 hroot)

theorem computeMerkleRoot_matches_ref_and_flags_collisions [Inhabited α] [DecidableEq α]
    (hash : α → α → α) :
    (∀ (hashes : List α) (mutated : Bool),
      (computeMerkleRoot hash hashes.toArray mutated).1 = merkleRootRef hash hashes) ∧
    (PairHashInjective hash → ∀ L₁ L₂ : List α, L₁ ≠ [] → L₂ ≠ [] → L₁ ≠ L₂ →
      (∀ x ∈ L₁ ++ L₂, ∀ a b, hash a b ≠ x) →
      (computeMerkleRoot hash L₁.toArray true).1 = (computeMerkleRoot hash L₂.toArray true).1 →
      (computeMerkleRoot hash L₁.toArray true).2 = true ∨
        (computeMerkleRoot hash L₂.toArray true).2 = true) := by
  refine ⟨fun hashes mutated => by simp [computeMerkleRoot_eq_ref], ?_⟩
  intro hinj L₁ L₂ hne₁ hne₂ hne hleaves hroot
  simp only [computeMerkleRoot_eq_ref, Bool.true_and] at hroot ⊢
  exact mutatedRef_of_root_collision hinj L₁ L₂ hne₁ hne₂ hleaves hne hroot

/-- Odd values `2 * pair a b + 1` as an injective pair hash with even leaves. -/
theorem computeMerkleRoot_flags_duplicated_tail :
    (computeMerkleRoot (fun a b => 2 * Nat.pair a b + 1) [0, 2, 4].toArray true).1 =
      merkleRootRef (fun a b => 2 * Nat.pair a b + 1) [0, 2, 4] ∧
    ((computeMerkleRoot (fun a b => 2 * Nat.pair a b + 1) [0, 2, 4].toArray true).2 = true ∨
      (computeMerkleRoot (fun a b => 2 * Nat.pair a b + 1) [0, 2, 4, 4].toArray true).2 = true) :=
  ⟨(computeMerkleRoot_matches_ref_and_flags_collisions _).1 _ _,
    (computeMerkleRoot_matches_ref_and_flags_collisions _).2
      (fun a b c d h => Nat.pair_eq_pair.mp (by omega)) [0, 2, 4] [0, 2, 4, 4]
      (by simp) (by simp) (by simp)
      (by intro x hx a b; simp at hx; omega) (by decide)⟩

end YuPost.Consensus.Merkle