import OpenStream.Lib.Runs

/-!
# Ranks

Two rules for reaching a goal by a rank, a number that gets smaller on the way.

* `Machine.Before`: a run that has not met the goal, with a count of one party's steps.
  **`Machine.Before.le_rank`**: if each of those lowers the rank and no other step raises it, there
  are no more of them than the rank.
* **`Machine.exists_of_rank`**
-/

namespace Runs

universe u v

namespace Machine

variable {σ : Type u} {α : Type v} {M : Machine σ α} {ok : σ → α → Prop} {mine : α → Prop}
  {goal : σ → Prop} {I : σ → Prop} {rank : σ → ℕ} {s t : σ}

variable (M ok mine goal) in
/-- From one state to another without meeting the goal, in so many steps of one party. -/
inductive Before (s : σ) : ℕ → σ → Prop
  | refl : ¬ goal s → Before s 0 s
  | mine {n : ℕ} {t t' : σ} {a : α} : Before s n t → ok t a → mine a → M.step t a = some t' →
      ¬ goal t' → Before s (n + 1) t'
  | other {n : ℕ} {t t' : σ} {a : α} : Before s n t → ok t a → ¬ mine a → M.step t a = some t' →
      ¬ goal t' → Before s n t'

/-- **A party takes no more steps than the rank.** -/
theorem Before.le_rank
    (hkeep : ∀ s a s', I s → ok s a → M.step s a = some s' → ¬ goal s → ¬ goal s' → I s')
    (hmine : ∀ s a s', I s → ok s a → mine a → M.step s a = some s' → ¬ goal s → ¬ goal s' →
      rank s' < rank s)
    (hother : ∀ s a s', I s → ok s a → ¬ mine a → M.step s a = some s' → ¬ goal s → ¬ goal s' →
      rank s' ≤ rank s) {n : ℕ} (hs : I s) (h : M.Before ok mine goal s n t) : n ≤ rank s := by
  -- the steps taken and the rank that is left
  have hsum : I t ∧ ¬ goal t ∧ n + rank t ≤ rank s := by
    induction h with
    | refl hg => exact ⟨hs, hg, Nat.le_of_eq (Nat.zero_add _)⟩
    | mine _ hok hm hst hg ih =>
      obtain ⟨hI, hng, hle⟩ := ih
      have hlt := hmine _ _ _ hI hok hm hst hng hg
      exact ⟨hkeep _ _ _ hI hok hst hng hg, hg, by omega⟩
    | other _ hok hm hst hg ih =>
      obtain ⟨hI, hng, hle⟩ := ih
      have hle' := hother _ _ _ hI hok hm hst hng hg
      exact ⟨hkeep _ _ _ hI hok hst hng hg, hg, by omega⟩
  omega

/-- **The goal can be reached if some step always lowers the rank.** -/
theorem exists_of_rank (rank : σ → ℕ)
    (hstep : ∀ s, I s → ¬ goal s → ∃ a s', ok s a ∧ M.step s a = some s' ∧
      (goal s' ∨ I s' ∧ rank s' < rank s))
    (hs : I s) : ∃ t, (M.startAt s).ReachVia ok t ∧ goal t := by
  induction hr : rank s using Nat.strongRecOn generalizing s with
  | ind r ih =>
    by_cases hg : goal s
    · exact ⟨s, .start, hg⟩
    · obtain ⟨a, s', hok, hst, hs'⟩ := hstep s hs hg
      have hone : (M.startAt s).ReachVia ok s' := .step .start hok hst
      rcases hs' with hg' | ⟨hI, hlt⟩
      · exact ⟨s', hone, hg'⟩
      · obtain ⟨t, ht, hgt⟩ := ih (rank s') (hr ▸ hlt) hI rfl
        exact ⟨t, hone.trans ht, hgt⟩

end Machine

end Runs
