import Mathlib.Data.List.ReduceOption

/-!
# Tables of slots

An array of optional entries, as a list: an entry goes to the first free slot, is found by scanning
the slots in order, and leaves its slot free.
-/

abbrev Slots (α : Type*) := List (Option α)

namespace Slots

open List

variable {α : Type*}

/-- The entries. -/
def taken (l : Slots α) : List α := l.reduceOption

variable {x : α}

@[simp] theorem mem_taken {l : Slots α} : x ∈ taken l ↔ some x ∈ l :=
  reduceOption_mem_iff

/-- Into the first free slot, if there is one. -/
def put (x : α) : Slots α → Option (Slots α)
  | [] => none
  | none :: l => some (some x :: l)
  | some y :: l => (put x l).map (some y :: ·)

/-- Out of the first slot that is taken. -/
def pop : Slots α → Option (α × Slots α)
  | [] => none
  | none :: l => (pop l).map fun (x, l') => (x, none :: l')
  | some x :: l => some (x, none :: l)

/-- The first entry that meets `p`, changed. -/
def modifyFirst (p : α → Bool) (f : α → α) : Slots α → Slots α
  | [] => []
  | none :: l => none :: modifyFirst p f l
  | some x :: l => if p x then some (f x) :: l else some x :: modifyFirst p f l

/-- The entry of one slot, changed. -/
def modifyAt (i : ℕ) (f : α → α) (l : Slots α) : Slots α := l.modify i (Option.map f)

/-- The first entry that meets `p`, with its slot. -/
def firstAt (p : α → Bool) (l : Slots α) : Option (ℕ × α) :=
  l.zipIdx.findSome? fun (slot, index) => (slot.filter p).map fun x => (index, x)

variable {f : α → α}

theorem mem_modifyFirst {p : α → Bool} : ∀ {l : Slots α},
    some x ∈ modifyFirst p f l → some x ∈ l ∨ ∃ y, (taken l).find? p = some y ∧ x = f y
  | [], h => by cases h
  | none :: l, h => by
    simp only [modifyFirst, mem_cons, reduceCtorEq, false_or] at h
    rcases mem_modifyFirst h with h | ⟨y, hy, rfl⟩
    · exact .inl (mem_cons_of_mem _ h)
    · exact .inr ⟨y, hy, rfl⟩
  | some z :: l, h => by
    have htaken : taken (some z :: l) = z :: taken l := reduceOption_cons_of_some z l
    rw [modifyFirst] at h
    rw [htaken]
    split_ifs at h with hz
    · rcases mem_cons.mp h with h | h
      · exact .inr ⟨z, by rw [find?_cons_of_pos hz], Option.some.inj h⟩
      · exact .inl (mem_cons_of_mem _ h)
    · rcases mem_cons.mp h with h | h
      · exact .inl (h ▸ mem_cons_self)
      · rcases mem_modifyFirst h with h | ⟨y, hy, rfl⟩
        · exact .inl (mem_cons_of_mem _ h)
        · exact .inr ⟨y, by rwa [find?_cons_of_neg hz], rfl⟩

theorem taken_cons_none (l : Slots α) : taken (none :: l) = taken l :=
  reduceOption_cons_of_none l

theorem taken_cons_some (x : α) (l : Slots α) : taken (some x :: l) = x :: taken l :=
  reduceOption_cons_of_some x l

theorem perm_put : ∀ {l l' : Slots α}, put x l = some l' → (taken l').Perm (x :: taken l)
  | [], l', h => by cases h
  | none :: l, l', h => by
    cases h
    rw [taken_cons_some, taken_cons_none]
  | some y :: l, l', h => by
    simp only [put, Option.map_eq_some_iff] at h
    obtain ⟨l₁, h₁, rfl⟩ := h
    exact ((perm_put h₁).cons y).trans (.swap x y _)

theorem map_modifyFirst {β : Type*} {p : α → Bool} {g : α → β}
    (hg : ∀ x, g (f x) = g x) : ∀ l : Slots α, (taken (modifyFirst p f l)).map g = (taken l).map g
  | [] => rfl
  | none :: l => by
    rw [modifyFirst, taken_cons_none, taken_cons_none, map_modifyFirst hg l]
  | some x :: l => by
    rw [modifyFirst]
    split_ifs
    · rw [taken_cons_some, taken_cons_some, map_cons, map_cons, hg]
    · rw [taken_cons_some, taken_cons_some, map_cons, map_cons, map_modifyFirst hg l]

theorem map_modifyAt {β : Type*} {g : α → β} (hg : ∀ x, g (f x) = g x) :
    ∀ (i : ℕ) (l : Slots α), (taken (modifyAt i f l)).map g = (taken l).map g
  | i, [] => by
    cases i <;> rfl
  | 0, none :: l => rfl
  | 0, some x :: l => by
    show (taken (some (f x) :: l)).map g = _
    rw [taken_cons_some, taken_cons_some, map_cons, map_cons, hg]
  | i + 1, none :: l => by
    show (taken (none :: modifyAt i f l)).map g = _
    rw [taken_cons_none, taken_cons_none, map_modifyAt hg i l]
  | i + 1, some x :: l => by
    show (taken (some x :: modifyAt i f l)).map g = _
    rw [taken_cons_some, taken_cons_some, map_cons, map_cons, map_modifyAt hg i l]

theorem mem_modifyFirst_key {κ : Type*} [DecidableEq κ] {key : α → κ} {k : κ} :
    ∀ {l : Slots α}, ((taken l).map key).Nodup → some x ∈ modifyFirst (fun y => key y = k) f l →
      some x ∈ l ∧ key x ≠ k ∨ ∃ y, some y ∈ l ∧ key y = k ∧ x = f y
  | [], _, h => by cases h
  | none :: l, hn, h => by
    simp only [modifyFirst, mem_cons, reduceCtorEq, false_or] at h
    rw [taken_cons_none] at hn
    rcases mem_modifyFirst_key hn h with ⟨hx, hk⟩ | ⟨y, hy, hk, rfl⟩
    · exact .inl ⟨mem_cons_of_mem _ hx, hk⟩
    · exact .inr ⟨y, mem_cons_of_mem _ hy, hk, rfl⟩
  | some z :: l, hn, h => by
    rw [taken_cons_some, map_cons, nodup_cons] at hn
    obtain ⟨hz, hn⟩ := hn
    rw [modifyFirst] at h
    split_ifs at h with hk
    · rw [decide_eq_true_eq] at hk
      rcases mem_cons.mp h with h | h
      · exact .inr ⟨z, mem_cons_self, hk, Option.some.inj h⟩
      · refine .inl ⟨mem_cons_of_mem _ h, fun hx => hz ?_⟩
        rw [hk, ← hx]
        exact mem_map_of_mem (mem_taken.mpr h)
    · rw [decide_eq_true_eq] at hk
      rcases mem_cons.mp h with h | h
      · cases h
        exact .inl ⟨mem_cons_self, hk⟩
      · rcases mem_modifyFirst_key hn h with ⟨hx, hk⟩ | ⟨y, hy, hk, rfl⟩
        · exact .inl ⟨mem_cons_of_mem _ hx, hk⟩
        · exact .inr ⟨y, mem_cons_of_mem _ hy, hk, rfl⟩

end Slots
