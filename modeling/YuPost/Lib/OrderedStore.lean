import Mathlib

/-! A store of values under keys of a linear order, kept as its entries in
increasing order of key, with the cursor of an ordered key-value database:
`seek k` is the entries from the first key at or above `k`, in order, which a
cursor steps through with `Next`. -/

namespace YuPost.Lib

/-- Byte strings in lexicographic order: LevelDB's bytewise comparator, and the
order of fixed-size hashes. -/
instance bytewiseOrder : LinearOrder (List UInt8) where
  le := (· ≤ ·)
  lt := (· < ·)
  le_refl := List.le_refl
  le_trans := fun _ _ _ => List.le_trans
  lt_iff_le_not_ge := fun _ _ => ⟨fun h => ⟨List.le_of_lt h, List.not_le.mpr h⟩, fun h => List.not_le.mp h.2⟩
  le_antisymm := fun _ _ => List.le_antisymm
  le_total := List.le_total
  toDecidableLE := inferInstance
  toDecidableLT := inferInstance
  toDecidableEq := inferInstance
  compare := fun a b => compareOfLessAndEq a b
  compare_eq_compareOfLessAndEq := fun _ _ => rfl

/-- Entries in strictly increasing order of key. -/
structure OrderedStore (κ ν : Type) [LinearOrder κ] where
  entries : List (κ × ν)
  sorted : entries.Pairwise (fun a b => a.1 < b.1)

namespace OrderedStore

variable {κ ν : Type} [LinearOrder κ]

def empty : OrderedStore κ ν := ⟨[], .nil⟩

/-- Insertion in order, replacing the entry of an equal key. -/
def insertEntry (k : κ) (v : ν) : List (κ × ν) → List (κ × ν)
  | [] => [(k, v)]
  | (k', v') :: rest =>
    if k < k' then (k, v) :: (k', v') :: rest
    else if k = k' then (k, v) :: rest
    else (k', v') :: insertEntry k v rest

theorem mem_insertEntry {k : κ} {v : ν} {e : κ × ν} {l : List (κ × ν)} :
    e ∈ insertEntry k v l → e = (k, v) ∨ e ∈ l := by
  induction l with
  | nil => simp [insertEntry]
  | cons hd tl ih =>
    unfold insertEntry
    split_ifs <;> grind

theorem sorted_insertEntry (k : κ) (v : ν) {l : List (κ × ν)}
    (h : l.Pairwise (fun a b => a.1 < b.1)) : (insertEntry k v l).Pairwise (fun a b => a.1 < b.1) := by
  induction l with
  | nil => simp [insertEntry]
  | cons hd tl ih =>
    obtain ⟨k', v'⟩ := hd
    unfold insertEntry
    split_ifs with hlt heq
    · exact h.cons fun a ha => (List.mem_cons.mp ha).elim (fun e => e ▸ hlt)
        (fun m => hlt.trans (List.rel_of_pairwise_cons h m))
    · subst heq
      exact h.of_cons.cons fun a ha => List.rel_of_pairwise_cons h ha
    · exact (ih h.of_cons).cons fun a ha => (mem_insertEntry ha).elim
        (fun e => e ▸ lt_of_le_of_ne (not_lt.mp hlt) (Ne.symm heq))
        (fun m => List.rel_of_pairwise_cons h m)

/-- `Put`. -/
def write (s : OrderedStore κ ν) (k : κ) (v : ν) : OrderedStore κ ν :=
  ⟨insertEntry k v s.entries, sorted_insertEntry k v s.sorted⟩

/-- `Delete`. -/
def erase (s : OrderedStore κ ν) (k : κ) : OrderedStore κ ν :=
  ⟨s.entries.filter (·.1 ≠ k), s.sorted.filter _⟩

/-- The cursor after `Seek(k)`. -/
def seek (s : OrderedStore κ ν) (k : κ) : List (κ × ν) := s.entries.dropWhile (·.1 < k)

/-- `Get`. -/
def get? (s : OrderedStore κ ν) (k : κ) : Option ν := s.entries.lookup k

@[simp] theorem get?_empty (k : κ) : (empty : OrderedStore κ ν).get? k = none := rfl

theorem lookup_cons_eq_ite (k k' : κ) (v : ν) (l : List (κ × ν)) :
    ((k, v) :: l).lookup k' = if k' = k then some v else l.lookup k' := by
  by_cases h : k' = k
  · subst h
    simp
  · simp [List.lookup, beq_false_of_ne h, h]

theorem mem_of_lookup_eq_some {k : κ} {v : ν} {l : List (κ × ν)} (h : l.lookup k = some v) : (k, v) ∈ l := by
  induction l with
  | nil => simp [List.lookup] at h
  | cons hd tl ih =>
    obtain ⟨k', v'⟩ := hd
    rw [lookup_cons_eq_ite] at h
    split_ifs at h with hk
    · cases h
      subst hk
      exact List.mem_cons_self
    · exact List.mem_cons_of_mem _ (ih h)

theorem lookup_insertEntry (k k' : κ) (v : ν) (l : List (κ × ν)) :
    (insertEntry k v l).lookup k' = if k' = k then some v else l.lookup k' := by
  induction l with
  | nil => simp [insertEntry, lookup_cons_eq_ite]
  | cons hd tl ih =>
    obtain ⟨k'', v''⟩ := hd
    unfold insertEntry
    by_cases hlt : k < k''
    · simp only [if_pos hlt, lookup_cons_eq_ite]
    · rw [if_neg hlt]
      by_cases heq : k = k''
      · subst heq
        simp only [if_true, lookup_cons_eq_ite]
        by_cases h : k' = k <;> simp [h]
      · -- the head stays in front of the insertion
        rw [if_neg heq, lookup_cons_eq_ite, lookup_cons_eq_ite, ih]
        by_cases h : k' = k''
        · subst h
          simp [Ne.symm heq]
        · simp [h]

@[simp] theorem get?_write (s : OrderedStore κ ν) (k k' : κ) (v : ν) :
    (s.write k v).get? k' = if k' = k then some v else s.get? k' :=
  lookup_insertEntry k k' v s.entries

theorem lookup_filter_ne (k k' : κ) (l : List (κ × ν)) :
    (l.filter (·.1 ≠ k)).lookup k' = if k' = k then none else l.lookup k' := by
  induction l with
  | nil => simp [List.lookup]
  | cons hd tl ih =>
    obtain ⟨k'', v''⟩ := hd
    by_cases hk : k'' = k
    · -- the erased key's entry goes, and with it the head of the lookup
      rw [List.filter_cons_of_neg (by simpa using hk), ih, lookup_cons_eq_ite]
      subst hk
      by_cases h : k' = k'' <;> simp [h]
    · rw [List.filter_cons_of_pos (by simpa using hk), lookup_cons_eq_ite, lookup_cons_eq_ite, ih]
      by_cases h : k' = k''
      · subst h
        simp [hk]
      · simp [h]

@[simp] theorem get?_erase (s : OrderedStore κ ν) (k k' : κ) :
    (s.erase k).get? k' = if k' = k then none else s.get? k' :=
  lookup_filter_ne k k' s.entries

theorem get?_foldl_erase (s : OrderedStore κ ν) {ks : List κ} {k : κ} (hk : k ∉ ks) :
    (ks.foldl erase s).get? k = s.get? k := by
  induction ks generalizing s with
  | nil => rfl
  | cons k' ks ih =>
    have hne : k ≠ k' := fun h => hk (h ▸ List.mem_cons_self)
    rw [List.foldl_cons, ih _ (fun h => hk (List.mem_cons_of_mem _ h)), get?_erase, if_neg hne]

theorem get?_of_mem {s : OrderedStore κ ν} {k : κ} {v : ν} (h : (k, v) ∈ s.entries) : s.get? k = some v := by
  obtain ⟨l, hsorted⟩ := s
  unfold get?
  simp only at h ⊢
  induction l with
  | nil => simp at h
  | cons hd tl ih =>
    obtain ⟨k', v'⟩ := hd
    rw [lookup_cons_eq_ite]
    rcases List.mem_cons.mp h with heq | hmem
    · cases heq
      simp
    · -- a later entry has a greater key than the head
      have hlt : k' < k := List.rel_of_pairwise_cons hsorted hmem
      rw [if_neg (ne_of_gt hlt)]
      exact ih hsorted.of_cons hmem

theorem lookup_eq_none_of_lt {k : κ} {l : List (κ × ν)} (h : ∀ e ∈ l, k < e.1) : l.lookup k = none := by
  cases hl : l.lookup k with
  | none => rfl
  | some v => exact absurd (h _ (mem_of_lookup_eq_some hl)) (lt_irrefl k)

/-- Writing the entries of a list of increasing keys in turn, each through `f`
or skipped where `f` gives nothing: a key reads what was written for it, or
else what the store held. -/
theorem get?_foldl_write {μ : Type} (f : κ × μ → Option ν) {l : List (κ × μ)}
    (hl : l.Pairwise (fun a b => a.1 < b.1)) (s : OrderedStore κ ν) (k : κ) :
    (l.foldl (fun s e => (f e).elim s (s.write e.1)) s).get? k =
      (l.lookup k).elim (s.get? k) (fun w => (f (k, w)).or (s.get? k)) := by
  induction l generalizing s with
  | nil => rfl
  | cons hd tl ih =>
    obtain ⟨k', w'⟩ := hd
    rw [List.foldl_cons, ih hl.of_cons, lookup_cons_eq_ite]
    by_cases hk : k = k'
    · -- the head's key is below every later one, so only the head writes it
      subst hk
      rw [lookup_eq_none_of_lt fun e he => List.rel_of_pairwise_cons hl he, if_pos rfl]
      rcases hf : f (k, w') with _ | v <;> simp [hf]
    · rw [if_neg hk]
      have hframe : ((f (k', w')).elim s (s.write k')).get? k = s.get? k := by
        cases f (k', w') <;> simp [hk]
      rw [hframe]

/-- A fold over entries of increasing keys whose step changes the store at
its entry's key only, to a value of the entry and what the key held: a key
then reads that value for its entry, or what the store held. -/
theorem get?_foldl_of_local {μ : Type} (act : OrderedStore κ ν → κ × μ → OrderedStore κ ν)
    (g : μ → Option ν → Option ν) (hself : ∀ s k w, (act s (k, w)).get? k = g w (s.get? k))
    (hother : ∀ s k w k', k' ≠ k → (act s (k, w)).get? k' = s.get? k')
    {l : List (κ × μ)} (hl : l.Pairwise (fun a b => a.1 < b.1)) (s : OrderedStore κ ν) (k : κ) :
    (l.foldl act s).get? k = (l.lookup k).elim (s.get? k) fun w => g w (s.get? k) := by
  induction l generalizing s with
  | nil => rfl
  | cons hd tl ih =>
    obtain ⟨k', w'⟩ := hd
    rw [List.foldl_cons, ih hl.of_cons, lookup_cons_eq_ite]
    by_cases hk : k = k'
    · -- the head's key is below every later one, so only the head acts on it
      subst hk
      rw [lookup_eq_none_of_lt fun e he => List.rel_of_pairwise_cons hl he, if_pos rfl, hself]
      rfl
    · rw [if_neg hk, hother s k' w' k hk]

theorem filterMap_insertEntry_of_none {μ : Type} (f : κ × ν → Option μ) {k : κ} {v : ν}
    {l : List (κ × ν)} (hk : l.lookup k = none) (hf : f (k, v) = none) :
    (insertEntry k v l).filterMap f = l.filterMap f := by
  induction l with
  | nil => simp [insertEntry, hf]
  | cons hd tl ih =>
    obtain ⟨k', v'⟩ := hd
    rw [lookup_cons_eq_ite] at hk
    have hne : k ≠ k' := fun h => by simp [h] at hk
    rw [if_neg hne] at hk
    unfold insertEntry
    by_cases hlt : k < k'
    · rw [if_pos hlt, List.filterMap_cons, hf]
    · rw [if_neg hlt, if_neg hne, List.filterMap_cons, List.filterMap_cons, ih hk]

/-- The keys the store holds an entry at. -/
def keys (s : OrderedStore κ ν) : Finset κ := (s.entries.map Prod.fst).toFinset

theorem nodup_map_fst (s : OrderedStore κ ν) : (s.entries.map Prod.fst).Nodup :=
  (s.sorted.map Prod.fst fun _ _ h => h).imp ne_of_lt

theorem mem_keys {s : OrderedStore κ ν} {k : κ} : k ∈ s.keys ↔ (s.get? k).isSome := by
  unfold keys
  rw [List.mem_toFinset, List.mem_map]
  constructor
  · rintro ⟨⟨k', v⟩, he, rfl⟩
    simp [get?_of_mem he]
  · intro h
    obtain ⟨v, hv⟩ := Option.isSome_iff_exists.mp h
    exact ⟨(k, v), mem_of_lookup_eq_some hv, rfl⟩

theorem mem_keys_iff_exists {s : OrderedStore κ ν} {k : κ} : k ∈ s.keys ↔ ∃ e ∈ s.entries, k = e.1 := by
  unfold keys
  rw [List.mem_toFinset, List.mem_map]
  exact ⟨fun ⟨e, he, hk⟩ => ⟨e, he, hk.symm⟩, fun ⟨e, he, hk⟩ => ⟨e, he, hk.symm⟩⟩

theorem sum_map_entries {M : Type} [AddCommMonoid M] (s : OrderedStore κ ν) (f : κ × ν → M) :
    (s.entries.map f).sum = ∑ k ∈ s.keys, (s.get? k).elim 0 (fun v => f (k, v)) := by
  unfold keys
  rw [List.sum_toFinset _ (nodup_map_fst s), List.map_map]
  congr 1
  apply List.map_congr_left
  intro e he
  simp [get?_of_mem he]

theorem sum_map_write {M : Type} [AddCommMonoid M] (s : OrderedStore κ ν) (k : κ) (v : ν) (f : κ × ν → M) :
    ((s.write k v).entries.map f).sum + (s.get? k).elim 0 (fun w => f (k, w)) =
      (s.entries.map f).sum + f (k, v) := by
  obtain ⟨l, hsorted⟩ := s
  unfold write get?
  simp only
  induction l with
  | nil => simp [insertEntry, List.lookup]
  | cons hd tl ih =>
    obtain ⟨k', v'⟩ := hd
    unfold insertEntry
    rw [lookup_cons_eq_ite]
    by_cases hlt : k < k'
    · -- the new key goes in front, below every key held
      have hnone : tl.lookup k = none :=
        lookup_eq_none_of_lt fun e he => hlt.trans (List.rel_of_pairwise_cons hsorted he)
      rw [if_pos hlt, if_neg (ne_of_lt hlt), hnone]
      simp only [List.map_cons, List.sum_cons, Option.elim, add_zero]
      ac_rfl
    rw [if_neg hlt]
    by_cases heq : k = k'
    · subst heq
      simp only [if_true, List.map_cons, List.sum_cons, Option.elim]
      ac_rfl
    · rw [if_neg heq, if_neg heq]
      simp only [List.map_cons, List.sum_cons]
      rw [add_assoc, ih hsorted.of_cons, add_assoc]

theorem sum_map_erase {M : Type} [AddCommMonoid M] (s : OrderedStore κ ν) (k : κ) (f : κ × ν → M) :
    ((s.erase k).entries.map f).sum + (s.get? k).elim 0 (fun w => f (k, w)) = (s.entries.map f).sum := by
  obtain ⟨l, hsorted⟩ := s
  unfold erase get?
  simp only
  induction l with
  | nil => simp [List.lookup]
  | cons hd tl ih =>
    obtain ⟨k', v'⟩ := hd
    rw [lookup_cons_eq_ite]
    by_cases heq : k = k'
    · -- the key's one entry is the head
      subst heq
      have hnone : tl.lookup k = none :=
        lookup_eq_none_of_lt fun e he => List.rel_of_pairwise_cons hsorted he
      have hrest := ih hsorted.of_cons
      rw [hnone] at hrest
      rw [List.filter_cons_of_neg (by simp), if_pos rfl]
      simp only [Option.elim, add_zero] at hrest
      simp only [Option.elim, List.map_cons, List.sum_cons, hrest]
      ac_rfl
    · rw [List.filter_cons_of_pos (by simpa using Ne.symm heq), if_neg heq]
      simp only [List.map_cons, List.sum_cons]
      rw [add_assoc, ih hsorted.of_cons]

theorem le_of_mem_seek {s : OrderedStore κ ν} {k : κ} {e : κ × ν} (he : e ∈ s.seek k) : k ≤ e.1 := by
  obtain ⟨l, hsorted⟩ := s
  unfold seek at he
  simp only at he
  induction l with
  | nil => simp at he
  | cons hd tl ih =>
    by_cases hlt : hd.1 < k
    · rw [List.dropWhile_cons_of_pos (by simpa using hlt)] at he
      exact ih hsorted.of_cons he
    · rw [List.dropWhile_cons_of_neg (by simpa using hlt)] at he
      -- the head is at or above `k`, and what follows it is above the head
      rcases List.mem_cons.mp he with rfl | hmem
      · exact not_lt.mp hlt
      · exact (not_lt.mp hlt).trans (List.rel_of_pairwise_cons hsorted hmem).le

theorem seek_of_get? {s : OrderedStore κ ν} {k : κ} {v : ν} (h : s.get? k = some v) :
    ∃ rest, s.seek k = (k, v) :: rest := by
  obtain ⟨l, hsorted⟩ := s
  unfold get? at h
  unfold seek
  simp only at h ⊢
  induction l with
  | nil => simp [List.lookup] at h
  | cons hd tl ih =>
    obtain ⟨k', v'⟩ := hd
    rw [lookup_cons_eq_ite] at h
    by_cases hk : k = k'
    · subst hk
      rw [if_pos rfl, Option.some.injEq] at h
      subst h
      exact ⟨tl, by simp⟩
    · rw [if_neg hk] at h
      -- an earlier key is below the key found later
      have hlt : k' < k := List.rel_of_pairwise_cons hsorted (mem_of_lookup_eq_some h)
      rw [List.dropWhile_cons_of_pos (by simpa using hlt)]
      exact ih hsorted.of_cons h

end OrderedStore

end YuPost.Lib
