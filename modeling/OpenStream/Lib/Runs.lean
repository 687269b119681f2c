import Mathlib.Data.List.Basic
import Mathlib.Logic.Basic

/-!
# Runs of a machine

A machine has a start state and a partial step function: `step s a` is the state after action `a`,
or `none` when `a` is not enabled in `s`. Every source of nondeterminism is in the choice of
actions, so a run is a list of actions.

* **`Machine.ReachVia.invariant`**
-/

theorem List.forall_mem_concat {α : Type*} {P : α → Prop} {l : List α} {x : α}
    (h : ∀ y ∈ l, P y) (hx : P x) : ∀ y ∈ l ++ [x], P y :=
  forall_mem_append.mpr ⟨h, forall_mem_singleton.mpr hx⟩

theorem Function.update_cases {ι α : Type*} [DecidableEq ι] {f : ι → α} {i j : ι} {x y : α}
    (h : update f i x j = y) : j = i ∧ x = y ∨ j ≠ i ∧ f j = y := by
  by_cases hji : j = i
  · subst hji
    exact .inl ⟨rfl, (update_self ..).symm.trans h⟩
  · exact .inr ⟨hji, (update_of_ne hji ..).symm.trans h⟩

namespace Runs

universe u v

theorem foldl_eq_self {α : Type u} {β : Type v} {f : β → α → β} {b : β} {l : List α}
    (h : ∀ x ∈ l, f b x = b) : l.foldl f b = b := by
  induction l with
  | nil => rfl
  | cons x l ih =>
    rw [List.foldl_cons, h x List.mem_cons_self]
    exact ih fun y hy => h y (List.mem_cons_of_mem _ hy)

/-- A machine: a start state and what an action does to a state. -/
structure Machine (σ : Type u) (α : Type v) where
  start : σ
  step : σ → α → Option σ

namespace Machine

variable {σ : Type u} {α : Type v} (M : Machine σ α)

/-- The states reached by runs whose actions all meet `ok` in the state they are taken in. -/
inductive ReachVia (ok : σ → α → Prop) : σ → Prop
  | start : ReachVia ok M.start
  | step {s s' : σ} {a : α} : ReachVia ok s → ok s a → M.step s a = some s' → ReachVia ok s'

/-- The states reached by any run. -/
abbrev Reach : σ → Prop := M.ReachVia fun _ _ => True

/-- The machine going on from another state. -/
def startAt (s : σ) : Machine σ α := ⟨s, M.step⟩

variable {M}

/-- **The invariant rule.** -/
theorem ReachVia.invariant {ok : σ → α → Prop} {I : σ → Prop} (h0 : I M.start)
    (hs : ∀ s a s', I s → ok s a → M.step s a = some s' → I s') {s : σ} (h : M.ReachVia ok s) :
    I s := by
  induction h with
  | start => exact h0
  | step _ hok hst ih => exact hs _ _ _ ih hok hst

theorem ReachVia.mono {ok ok' : σ → α → Prop} (hk : ∀ s a, ok s a → ok' s a) {s : σ}
    (h : M.ReachVia ok s) : M.ReachVia ok' s := by
  induction h with
  | start => exact .start
  | step _ hok hst ih => exact .step ih (hk _ _ hok) hst

theorem ReachVia.trans {ok : σ → α → Prop} {s t : σ} (h : M.ReachVia ok s)
    (h' : (M.startAt s).ReachVia ok t) : M.ReachVia ok t := by
  induction h' with
  | start => exact h
  | step _ hok hst ih => exact .step ih hok hst

variable (M) in
/-- The state after a list of actions from `s`, if each is enabled and meets `ok`. -/
def runVia (ok : σ → α → Prop) [∀ s a, Decidable (ok s a)] : σ → List α → Option σ
  | s, [] => some s
  | s, a :: as => if ok s a then (M.step s a).bind fun s' => runVia ok s' as else none

theorem ReachVia.run {ok : σ → α → Prop} [∀ s a, Decidable (ok s a)] {s s' : σ}
    (h : M.ReachVia ok s) : ∀ {as : List α}, M.runVia ok s as = some s' → M.ReachVia ok s' := by
  intro as
  induction as generalizing s with
  | nil =>
    intro hr
    cases hr
    exact h
  | cons a as ih =>
    intro hr
    simp only [runVia] at hr
    split_ifs at hr with hok
    rw [Option.bind_eq_some_iff] at hr
    obtain ⟨t, hst, hr⟩ := hr
    exact ih (.step h hok hst) hr

theorem ReachVia.exists_run {ok : σ → α → Prop} [∀ s a, Decidable (ok s a)] {s : σ}
    (hs : M.ReachVia ok s) (as : List α) (P : σ → Prop) [DecidablePred P]
    (h : (M.runVia ok s as).any (fun s => decide (P s)) = true) : ∃ s, M.ReachVia ok s ∧ P s := by
  rw [Option.any_eq_true] at h
  obtain ⟨s', hs', hP⟩ := h
  exact ⟨s', hs.run hs', of_decide_eq_true hP⟩

/-- **What a list of actions shows of its last state holds of some state reached.** -/
theorem exists_reachVia (ok : σ → α → Prop) [∀ s a, Decidable (ok s a)] (as : List α)
    (P : σ → Prop) [DecidablePred P]
    (h : (M.runVia ok M.start as).any (fun s => decide (P s)) = true) :
    ∃ s, M.ReachVia ok s ∧ P s :=
  ReachVia.exists_run .start as P h

end Machine

end Runs
