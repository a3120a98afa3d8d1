import Mathlib.Data.List.Perm.Subperm

/-! Computations that can fail. A chain of checks in `Except`, each of which
throws or goes on, succeeds exactly when every check passes and the rest
succeeds (`ite_throw_eq_ok`, `bind_eq_ok`, `map_eq_ok`); stated as rewrite rules, they
turn a success of a whole `do` block into the conjunction of its checks.

Lists traversed with a step that can fail: a traversal in `Option`
(`List.mapM`) succeeds exactly when each element maps to the element of the
result at its place, so the result is as long as the input and each of its
elements comes from one of the input's. Searching a list for each element of
another and erasing what is found (`eraseEach`, a loop of `std::find` and
`erase`) succeeds when the second list is contained in the first with
multiplicities, and leaves their difference. -/

namespace YuPost.Lib

variable {α β : Type}

section Except

variable {ε : Type}

theorem bind_eq_ok {x : Except ε α} {f : α → Except ε β} {b : β} :
    x >>= f = .ok b ↔ ∃ a, x = .ok a ∧ f a = .ok b := by
  cases x <;> simp [bind, Except.bind]

theorem ite_throw_eq_ok {c : Prop} [Decidable c] {e : ε} {x : Except ε β} {b : β} :
    (if c then throw e else x) = .ok b ↔ ¬c ∧ x = .ok b := by
  by_cases hc : c <;> simp [hc, throw, throwThe, MonadExceptOf.throw]

theorem throw_bind_ne_ok {e : ε} {f : α → Except ε β} {b : β} : (throw e >>= f : Except ε β) ≠ .ok b := by
  simp [throw, throwThe, MonadExceptOf.throw, bind, Except.bind]

theorem map_eq_ok {x : Except ε α} {f : α → β} {b : β} : x.map f = .ok b ↔ ∃ a, x = .ok a ∧ f a = b := by
  cases x <;> simp [Except.map]

end Except

section MapM

variable {f : α → Option β}

theorem mapM_eq_some_iff {l : List α} {r : List β} : l.mapM f = some r ↔ l.map f = r.map some := by
  induction l generalizing r with
  | nil => cases r <;> simp
  | cons a l ih =>
    cases r with
    | nil =>
      rw [List.mapM_cons]
      cases f a <;> cases l.mapM f <;> simp
    | cons b r =>
      rw [List.map_cons, List.map_cons, List.cons.injEq, ← ih, List.mapM_cons]
      cases f a <;> cases l.mapM f <;> simp_all

theorem length_eq_of_mapM_eq_some {l : List α} {r : List β} (h : l.mapM f = some r) :
    r.length = l.length := by
  simpa using (congrArg List.length (Iff.mp mapM_eq_some_iff h)).symm

theorem exists_of_mem_of_mapM_eq_some {l : List α} {r : List β} (h : l.mapM f = some r) {b : β}
    (hb : b ∈ r) : ∃ a ∈ l, f a = some b := by
  have hmem : some b ∈ l.map f := by
    rw [Iff.mp mapM_eq_some_iff h]
    exact List.mem_map_of_mem hb
  simpa using hmem

theorem filterMap_cons_eq_toList_append (f : α → Option β) (a : α) (l : List α) :
    (a :: l).filterMap f = (f a).toList ++ l.filterMap f := by
  cases h : f a <;>
    simp only [List.filterMap_cons, h, Option.toList_none, Option.toList_some, List.nil_append,
      List.singleton_append]

end MapM

section EraseEach

variable [DecidableEq α]

/-- Each element of the second list searched for in the first and erased
there; `none` as soon as one is missing. -/
def eraseEach (l : List α) : List α → Option (List α)
  | [] => some l
  | a :: t => if a ∈ l then eraseEach (l.erase a) t else none

end EraseEach

end YuPost.Lib
