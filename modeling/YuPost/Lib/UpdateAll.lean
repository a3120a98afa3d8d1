import Mathlib.Logic.Function.Basic
import Mathlib.Data.List.Nodup

/-! A map updated at each key of a list in turn. A key the list does not
name keeps its value; with distinct keys, a key the list names reads the
value the list gives it. Writing back, in any order, the values the map had
at the keys written restores the map: what an undo log relies on. -/

namespace YuPost.Lib

variable {κ β : Type}

@[simp] theorem map_fst_map_pair (l : List κ) (f : κ → β) : (l.map fun k => (k, f k)).map Prod.fst = l := by
  rw [List.map_map]
  exact List.map_id l

variable [DecidableEq κ]

/-- Each key of the list set to its value, in the list's order. -/
def updateAll (m : κ → β) (l : List (κ × β)) : κ → β :=
  l.foldl (fun m e => Function.update m e.1 e.2) m

@[simp] theorem updateAll_nil (m : κ → β) : updateAll m [] = m := rfl

theorem updateAll_cons (m : κ → β) (e : κ × β) (l : List (κ × β)) :
    updateAll m (e :: l) = updateAll (Function.update m e.1 e.2) l := rfl

theorem updateAll_apply_of_not_mem {m : κ → β} {l : List (κ × β)} {k : κ} (hk : k ∉ l.map Prod.fst) :
    updateAll m l k = m k := by
  induction l generalizing m with
  | nil => rfl
  | cons e l ih =>
    simp only [List.map_cons, List.mem_cons, not_or] at hk
    rw [updateAll_cons, ih hk.2, Function.update_of_ne hk.1]

theorem updateAll_apply_of_mem {m : κ → β} {l : List (κ × β)} (hl : (l.map Prod.fst).Nodup) {k : κ} {b : β}
    (h : (k, b) ∈ l) : updateAll m l k = b := by
  induction l generalizing m with
  | nil => simp at h
  | cons e l ih =>
    rw [List.map_cons, List.nodup_cons] at hl
    rw [updateAll_cons]
    rcases List.mem_cons.mp h with rfl | h
    · -- the head is the one entry at its key
      rw [updateAll_apply_of_not_mem hl.1, Function.update_self]
    · exact ih hl.2 h

theorem updateAll_restore {m : κ → β} {l l' : List (κ × β)} (hl' : (l'.map Prod.fst).Nodup)
    (hkeys : ∀ k, k ∈ l'.map Prod.fst ↔ k ∈ l.map Prod.fst) (hvals : ∀ e ∈ l', e.2 = m e.1) :
    updateAll (updateAll m l) l' = m := by
  funext k
  by_cases hk : k ∈ l'.map Prod.fst
  · obtain ⟨e, he, rfl⟩ := List.mem_map.mp hk
    rw [updateAll_apply_of_mem hl' he, hvals e he]
  · rw [updateAll_apply_of_not_mem hk, updateAll_apply_of_not_mem (fun h => hk ((hkeys k).mpr h))]

theorem zip_apply_eq_of_map_eq {α γ : Type} {f : α → γ} {g : β → γ} :
    ∀ {l₁ : List α} {l₂ : List β}, l₂.map g = l₁.map f → ∀ {a b}, (a, b) ∈ l₁.zip l₂ → g b = f a
  | [], _, _, _, _, hab => by simp at hab
  | _ :: _, [], h, _, _, _ => by simp at h
  | a' :: l₁, b' :: l₂, h, a, b, hab => by
    rw [List.map_cons, List.map_cons, List.cons.injEq] at h
    rcases List.mem_cons.mp hab with heq | hab
    · cases heq
      exact h.1
    · exact zip_apply_eq_of_map_eq h.2 hab

end YuPost.Lib
