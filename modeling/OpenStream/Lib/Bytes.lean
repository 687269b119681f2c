import Mathlib.Data.List.Basic
import Mathlib.Data.List.Range
import Mathlib.Data.UInt

/-!
# Byte strings

* `Bytes.slices c k l`: the first `k` runs of `c` bytes of `l`; **`Bytes.flatten_slices`**: enough of
  them give `l` back.
-/

namespace Bytes

abbrev Str : Type := List UInt8

/-- The four bytes of a 32-bit number, most significant first. -/
def be32 (x : ℕ) : Str :=
  [UInt8.ofNat (x / 2 ^ 24), UInt8.ofNat (x / 2 ^ 16), UInt8.ofNat (x / 2 ^ 8), UInt8.ofNat x]

/-- The number four bytes spell, most significant first. -/
def ofBe32 : Str → Option ℕ
  | [a, b, c, d] => some (a.toNat * 2 ^ 24 + b.toNat * 2 ^ 16 + c.toNat * 2 ^ 8 + d.toNat)
  | _ => none

@[simp] theorem length_be32 (x : ℕ) : (be32 x).length = 4 := rfl

theorem ofBe32_be32 {x : ℕ} (h : x < 2 ^ 32) : ofBe32 (be32 x) = some x := by
  simp only [be32, ofBe32, UInt8.toNat_ofNat', Option.some.injEq]
  omega

/-- The last `k` bytes of a number, most significant first. -/
def be : ℕ → ℕ → Str
  | 0, _ => []
  | k + 1, x => be k (x / 256) ++ [UInt8.ofNat x]

/-- The number that bytes spell, most significant first. -/
def ofBe (l : Str) : ℕ := l.foldl (fun x b => x * 256 + b.toNat) 0

@[simp] theorem length_be (k x : ℕ) : (be k x).length = k := by
  induction k generalizing x with
  | zero => rfl
  | succ k ih => rw [be, List.length_append, ih, List.length_singleton]

theorem ofBe_be {k x : ℕ} (h : x < 256 ^ k) : ofBe (be k x) = x := by
  induction k generalizing x with
  | zero =>
    rw [Nat.pow_zero] at h
    show 0 = x
    omega
  | succ k ih =>
    rw [Nat.pow_succ] at h
    have hhead : ofBe (be k (x / 256)) = x / 256 := ih (by omega)
    rw [ofBe] at hhead ⊢
    rw [be, List.foldl_append, hhead, List.foldl_cons, List.foldl_nil, UInt8.toNat_ofNat']
    omega

theorem be_succ (k x : ℕ) : be (k + 1) x = UInt8.ofNat (x / 256 ^ k) :: be k x := by
  induction k generalizing x with
  | zero => simp [be]
  | succ k ih =>
    rw [be, ih, be, Nat.div_div_eq_div_mul, Nat.pow_succ, Nat.mul_comm 256]
    rfl

/-- A byte after the first of a character. -/
def isContinuation (b : UInt8) : Bool := 0x80 ≤ b && b ≤ 0xBF

/-- Whether bytes are well-formed UTF-8: no overlong form, no surrogate, nothing past U+10FFFF. -/
def validUtf8 : Str → Bool
  | [] => true
  | a :: l =>
    if a ≤ 0x7F then validUtf8 l
    else if 0xC2 ≤ a && a ≤ 0xDF then
      match l with
      | b :: l => isContinuation b && validUtf8 l
      | _ => false
    else if 0xE0 ≤ a && a ≤ 0xEF then
      match l with
      | b :: c :: l => isContinuation b && (a ≠ 0xE0 || 0xA0 ≤ b) && (a ≠ 0xED || b ≤ 0x9F) &&
          isContinuation c && validUtf8 l
      | _ => false
    else if 0xF0 ≤ a && a ≤ 0xF4 then
      match l with
      | b :: c :: d :: l => isContinuation b && (a ≠ 0xF0 || 0x90 ≤ b) && (a ≠ 0xF4 || b ≤ 0x8F) &&
          isContinuation c && isContinuation d && validUtf8 l
      | _ => false
    else false

/-! ## Slices -/

variable {α : Type*}

/-- The `i`-th run of `c` elements. -/
def slice (c : ℕ) (l : List α) (i : ℕ) : List α := (l.drop (i * c)).take c

/-- The first `k` runs of `c` elements. -/
def slices (c k : ℕ) (l : List α) : List (List α) := (List.range k).map (slice c l)

theorem length_slices (c k : ℕ) (l : List α) : (slices c k l).length = k := by
  simp [slices]

theorem slices_succ (c k : ℕ) (l : List α) :
    slices c (k + 1) l = l.take c :: slices c k (l.drop c) := by
  simp only [slices, List.range_succ_eq_map, List.map_cons, List.map_map]
  refine congrArg₂ List.cons ?_ (List.map_congr_left fun i _ => ?_)
  · simp [slice]
  · simp only [Function.comp_apply, slice, List.drop_drop]
    rw [Nat.succ_mul, Nat.add_comm]

/-- **Enough slices give the string back.** -/
theorem flatten_slices (c : ℕ) : ∀ (k : ℕ) (l : List α), l.length ≤ k * c →
    (slices c k l).flatten = l
  | 0, l, h => by
    have : l = [] := List.eq_nil_of_length_eq_zero (by omega)
    simp [this, slices]
  | k + 1, l, h => by
    rw [slices_succ, List.flatten_cons, flatten_slices c k (l.drop c), List.take_append_drop]
    rw [List.length_drop]
    rw [Nat.succ_mul] at h
    omega

theorem length_slice_le (c : ℕ) (l : List α) (i : ℕ) : (slice c l i).length ≤ c := by
  simp [slice]

theorem slice_ne_nil {c : ℕ} {l : List α} {i : ℕ} (hc : 0 < c) (h : i * c < l.length) :
    slice c l i ≠ [] := by
  rw [slice, ← List.length_pos_iff, List.length_take, List.length_drop]
  omega

end Bytes
