import Mathlib.Data.List.AList
import Mathlib.Data.List.Induction

/-!
# Finite maps

A table is an association list without repeated keys (`AList`). Added here: keeping the entries that
meet a predicate, adding an entry only when its key is free, and the number of entries.
-/

/-- A finite map from `κ` to `ν`. -/
abbrev Table (κ : Type*) (ν : Type*) := AList fun _ : κ => ν

namespace Table

open List

variable {κ ν : Type*}

def size (t : Table κ ν) : ℕ := t.entries.length

/-- The entries that meet `p`. -/
def retain (p : κ → ν → Bool) (t : Table κ ν) : Table κ ν :=
  ⟨t.entries.filter fun e => p e.1 e.2, t.nodupKeys.sublist List.filter_sublist⟩

@[simp] theorem entries_retain (p : κ → ν → Bool) (t : Table κ ν) :
    (retain p t).entries = t.entries.filter fun e => p e.1 e.2 := rfl

section

variable [DecidableEq κ]

/-- Insert an entry unless its key is taken. -/
def orInsert (t : Table κ ν) (a : κ) (b : ν) : Table κ ν := if a ∈ t then t else t.insert a b

theorem lookup_retain (p : κ → ν → Bool) (t : Table κ ν) (a : κ) :
    (retain p t).lookup a = (t.lookup a).filter (p a) := by
  ext b
  rw [Option.filter_eq_some_iff, ← Option.mem_def, ← Option.mem_def, AList.mem_lookup_iff,
    AList.mem_lookup_iff, entries_retain, mem_filter]

theorem mem_of_lookup {t : Table κ ν} {a : κ} {b : ν} (h : t.lookup a = some b) : a ∈ t :=
  AList.lookup_isSome.mp (Option.isSome_iff_exists.mpr ⟨b, h⟩)

theorem exists_lookup {t : Table κ ν} {a : κ} (h : a ∈ t) : ∃ b, t.lookup a = some b :=
  Option.isSome_iff_exists.mp (AList.lookup_isSome.mpr h)

end

/-! ## The greatest entry -/

section

variable {α : Type*} (f : α → ℕ)

/-- One step of `maxByKey`: the newcomer wins unless it is smaller. -/
def maxStep (best : Option α) (x : α) : Option α :=
  match best with
  | none => some x
  | some b => if f b ≤ f x then some x else some b

/-- The element with the greatest value of `f`, the last of them on a tie. -/
def maxByKey (l : List α) : Option α := l.foldl (maxStep f) none

theorem mem_of_maxByKey : ∀ {l : List α} {x : α}, maxByKey f l = some x → x ∈ l := by
  intro l
  induction l using reverseRecOn with
  | nil =>
    intro x h
    cases h
  | append_singleton l y ih =>
    intro x h
    rw [maxByKey, foldl_append, foldl_cons, foldl_nil] at h
    change maxStep f (maxByKey f l) y = some x at h
    rw [mem_append, mem_singleton]
    unfold maxStep at h
    split at h
    · cases h
      exact .inr rfl
    · rename_i b hb
      split_ifs at h
      · cases h
        exact .inr rfl
      · cases h
        exact .inl (ih hb)

theorem maxByKey_append {l : List α} {x : α} (h : ∀ y ∈ l, f y ≤ f x) :
    maxByKey f (l ++ [x]) = some x := by
  rw [maxByKey, foldl_append, foldl_cons, foldl_nil]
  change maxStep f (maxByKey f l) x = some x
  cases hb : maxByKey f l with
  | none => rfl
  | some b => rw [maxStep, if_pos (h b (mem_of_maxByKey f hb))]

/-- The element with the least value of `f`, the first of them on a tie. -/
def minByKey : List α → Option α
  | [] => none
  | x :: l =>
    match minByKey l with
    | none => some x
    | some y => if f x ≤ f y then some x else some y

theorem minByKey_eq_none {l : List α} : minByKey f l = none ↔ l = [] := by
  cases l with
  | nil => simp [minByKey]
  | cons x l =>
    simp only [minByKey, reduceCtorEq, iff_false]
    split
    · simp
    · split_ifs <;> simp

theorem minByKey_spec {l : List α} {x : α} (h : minByKey f l = some x) :
    x ∈ l ∧ ∀ y ∈ l, f x ≤ f y := by
  induction l generalizing x with
  | nil => cases h
  | cons z l ih =>
    simp only [minByKey] at h
    cases hl : minByKey f l with
    | none =>
      rw [hl] at h
      cases h
      rw [minByKey_eq_none] at hl
      subst hl
      simp
    | some y =>
      obtain ⟨hmem, hle⟩ := ih hl
      rw [hl] at h
      dsimp only at h
      split_ifs at h with hzy
      · cases h
        refine ⟨mem_cons_self, fun w hw => ?_⟩
        rcases mem_cons.mp hw with rfl | hw
        · exact le_rfl
        · exact Nat.le_trans hzy (hle w hw)
      · cases h
        refine ⟨mem_cons_of_mem z hmem, fun w hw => ?_⟩
        rcases mem_cons.mp hw with rfl | hw
        · omega
        · exact hle w hw

end

end Table
