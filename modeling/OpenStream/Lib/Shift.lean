import Mathlib.Data.List.Basic
import Mathlib.Tactic.ByContra

/-!
# Windows of recent numbers

A set of numbers, kept as its greatest member and a mask of 64 bits: bit `i` says whether the number
`i` below the greatest is in it.

* **`Marks.shift`**, **`Marks.fill`**: a greater number, and one within the window, are added.
-/

namespace Shift

/-- `mask` marks the members of `seen` within 64 of the greatest one. -/
structure Marks (seen : ℕ → Prop) (largest : ℕ) (mask : BitVec 64) : Prop where
  mem : seen largest
  le : ∀ c, seen c → c ≤ largest
  bit : ∀ i < 64, mask.getLsbD i = true ↔ i ≤ largest ∧ seen (largest - i)

/-- The window moves up by `d`, to a member. -/
def shift (mask : BitVec 64) (d : ℕ) : BitVec 64 := if 64 ≤ d then 1#64 else mask <<< d ||| 1#64

variable {seen : ℕ → Prop} {largest c : ℕ} {mask : BitVec 64}

theorem getLsbD_single {i : ℕ} (d : ℕ) (hi : i < 64) : (1#64 <<< d).getLsbD i = true ↔ i = d := by
  grind

theorem marks_one (c : ℕ) : Marks (· = c) c 1#64 := by
  refine ⟨rfl, fun _ h => Nat.le_of_eq h, fun i hi => ?_⟩
  grind

theorem Marks.shift (h : Marks seen largest mask) (hc : largest < c) :
    Marks (fun x => x = c ∨ seen x) c (Shift.shift mask (c - largest)) := by
  refine ⟨.inl rfl, fun x hx => ?_, fun i hi => ?_⟩
  · have := h.le x
    grind
  · have hbit := h.bit (i - (c - largest))
    have := h.le (c - i)
    grind [Shift.shift]

theorem Marks.fill (h : Marks seen largest mask) (hc : c ≤ largest) :
    Marks (fun x => x = c ∨ seen x) largest (mask ||| 1#64 <<< (largest - c)) := by
  refine ⟨.inr h.mem, fun x hx => ?_, fun i hi => ?_⟩
  · have := h.le x
    grind
  · have := h.bit i hi
    grind [getLsbD_single]

theorem Marks.test (h : Marks seen largest mask) (hc : c ≤ largest) (hd : largest - c < 64) :
    mask &&& 1#64 <<< (largest - c) ≠ 0#64 ↔ seen c := by
  have hbit := h.bit _ hd
  rw [Nat.sub_sub_self hc] at hbit
  rw [← show _ ↔ seen c from hbit.trans (and_iff_right (Nat.sub_le _ _))]
  constructor
  · intro hne
    by_contra hoff
    refine hne (BitVec.eq_of_getLsbD_eq fun i hi => ?_)
    grind [getLsbD_single]
  · intro hon hzero
    have := congrArg (BitVec.getLsbD · (largest - c)) hzero
    grind [getLsbD_single]

end Shift
