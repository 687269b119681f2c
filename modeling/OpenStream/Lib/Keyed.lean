import Mathlib.Data.List.Basic
import Mathlib.Data.List.Nodup

/-!
# Lists of records with distinct keys

A map whose values know their own key, kept as a list of the values.
-/

namespace Keyed

variable {α κ : Type*} [DecidableEq κ] (key : α → κ)

/-- The record with key `k`. -/
def get (l : List α) (k : κ) : Option α := l.find? fun x => key x = k

/-- Change the record with key `k`. -/
def modify (l : List α) (k : κ) (f : α → α) : List α := l.map fun x => if key x = k then f x else x

variable {key} {l : List α} {k : κ} {f : α → α} {x : α}

theorem mem_of_get (h : get key l k = some x) : x ∈ l := List.mem_of_find?_eq_some h

theorem key_of_get (h : get key l k = some x) : key x = k := by
  simpa using List.find?_some h

omit [DecidableEq κ] in
theorem eq_of_key (hn : (l.map key).Nodup) {y : α} (hx : x ∈ l) (hy : y ∈ l) (h : key x = key y) :
    x = y :=
  List.inj_on_of_nodup_map hn hx hy h

theorem mem_modify (hx : x ∈ modify key l k f) :
    (x ∈ l ∧ key x ≠ k) ∨ ∃ y ∈ l, key y = k ∧ x = f y := by
  obtain ⟨y, hy, rfl⟩ := List.mem_map.mp hx
  split_ifs with h
  · exact .inr ⟨y, hy, h, rfl⟩
  · exact .inl ⟨hy, h⟩

theorem mem_modify_self (hx : x ∈ l) (h : key x = k) : f x ∈ modify key l k f :=
  List.mem_map.mpr ⟨x, hx, if_pos h⟩

theorem keys_modify (hf : ∀ x, key (f x) = key x) : (modify key l k f).map key = l.map key := by
  rw [modify, List.map_map]
  refine List.map_congr_left fun x _ => ?_
  rw [Function.comp_apply]
  split_ifs
  · exact hf x
  · rfl

theorem get_modify (hf : ∀ x, key (f x) = key x) (k' : κ) :
    get key (modify key l k f) k' = if k' = k then (get key l k').map f else get key l k' := by
  induction l with
  | nil => split_ifs <;> rfl
  | cons a l ih =>
    have hkey : key (if key a = k then f a else a) = key a := by
      split_ifs
      · exact hf a
      · rfl
    simp only [get, modify, List.map_cons, List.find?_cons, hkey] at ih ⊢
    by_cases ha : key a = k'
    · subst ha
      simp only [decide_true]
      split_ifs <;> rfl
    · simp only [ha, decide_false]
      exact ih

theorem get_filter_ne (k' : κ) :
    get key (l.filter fun x => key x ≠ k) k' = if k' = k then none else get key l k' := by
  rw [get, List.find?_filter]
  split_ifs with h
  · rw [List.find?_eq_none]
    intro x _
    simp [h]
  · rw [get]
    congr 1
    funext x
    by_cases hx : key x = k'
    · simp [hx, h]
    · simp [hx]

end Keyed
