import Mathlib.Data.UInt
import Mathlib.Tactic.Ring

/-!
# Serial numbers of 32 bits

Positions of a stream are natural numbers; what travels is the position modulo `2 ^ 32`. A number
is before another when the wrapped difference, read as signed, is positive (RFC 1982).

* **`Serial.sge_ofNat`**
-/

namespace Serial

open UInt32
open UInt32 (ofNat toNat_ofNat' toNat_add toNat_one toNat_inj)

/-- `a` is after `b`: the wrapped difference is positive when read as a signed number. -/
def sgt (a b : UInt32) : Bool := decide (0 < (a - b).toNat ∧ (a - b).toNat < 2 ^ 31)

/-- `a` is at or after `b`. -/
def sge (a b : UInt32) : Bool := decide ((a - b).toNat < 2 ^ 31)

theorem toNat_ofNat_lt {x : ℕ} (h : x < 2 ^ 32) : (ofNat x).toNat = x := by
  rw [toNat_ofNat']
  exact Nat.mod_eq_of_lt h

theorem toNat_sub (a b : UInt32) :
    (a - b).toNat = if b.toNat ≤ a.toNat then a.toNat - b.toNat
      else a.toNat + 2 ^ 32 - b.toNat := by
  have ha := a.toNat_lt
  have hb := b.toNat_lt
  rw [UInt32.toNat_sub]
  split_ifs <;> omega

theorem toNat_sub_ofNat {x y : ℕ} (h : y ≤ x) (hd : x - y < 2 ^ 32) :
    (ofNat x - ofNat y).toNat = x - y := by
  rw [UInt32.toNat_sub, toNat_ofNat', toNat_ofNat']
  omega

theorem toNat_sub_ofNat_of_lt {x y : ℕ} (h : x < y) (hd : y - x < 2 ^ 32) :
    (ofNat x - ofNat y).toNat = 2 ^ 32 - (y - x) := by
  rw [UInt32.toNat_sub, toNat_ofNat', toNat_ofNat']
  omega

/-- **The wrapped comparison is the comparison of the positions.** -/
theorem sge_ofNat {x y : ℕ} (h1 : x - y < 2 ^ 31) (h2 : y - x ≤ 2 ^ 31) :
    sge (ofNat x) (ofNat y) = true ↔ y ≤ x := by
  unfold sge
  rw [decide_eq_true_iff]
  by_cases h : y ≤ x
  · rw [toNat_sub_ofNat h (by omega)]
    omega
  · rw [toNat_sub_ofNat_of_lt (by omega) (by omega)]
    omega

theorem toNat_succ {x : UInt32} (h : x.toNat + 1 < 2 ^ 32) : (x + 1).toNat = x.toNat + 1 := by
  rw [toNat_add, toNat_one]
  exact Nat.mod_eq_of_lt h

theorem toNat_add_ofNat {x : UInt32} {k : ℕ} (h : x.toNat + k < 2 ^ 32) :
    (x + ofNat k).toNat = x.toNat + k := by
  rw [toNat_add, toNat_ofNat_lt (by omega)]
  exact Nat.mod_eq_of_lt h

theorem ofNat_succ (x : ℕ) : ofNat x + 1 = ofNat (x + 1) := by
  apply toNat_inj.mp
  rw [toNat_add, toNat_ofNat', toNat_ofNat', toNat_one]
  omega

theorem ofNat_add (x y : ℕ) : ofNat x + ofNat y = ofNat (x + y) := by
  apply toNat_inj.mp
  rw [toNat_add, toNat_ofNat', toNat_ofNat', toNat_ofNat']
  omega

theorem slot_inj {n x y : ℕ} (h : x % n = y % n) (h1 : x < y + n) (h2 : y < x + n) : x = y := by
  rcases le_total x y with hle | hle
  · have hd : n ∣ y - x := (Nat.modEq_iff_dvd' hle).mp h
    rcases Nat.eq_zero_or_pos (y - x) with h0 | hpos
    · omega
    · exact absurd (Nat.le_of_dvd hpos hd) (by omega)
  · have hd : n ∣ x - y := (Nat.modEq_iff_dvd' hle).mp h.symm
    rcases Nat.eq_zero_or_pos (x - y) with h0 | hpos
    · omega
    · exact absurd (Nat.le_of_dvd hpos hd) (by omega)

theorem ofNat_inj {x y : ℕ} (h : ofNat x = ofNat y) (h1 : x < y + 2 ^ 32)
    (h2 : y < x + 2 ^ 32) : x = y := by
  have hmod := congrArg toNat h
  rw [toNat_ofNat', toNat_ofNat'] at hmod
  exact slot_inj hmod h1 h2

/-! ## Offsets -/

/-- How far a number is from a base, counting up. -/
def offset (base a : UInt32) : ℕ := (a - base).toNat

section

variable {base a b : UInt32}

@[simp] theorem offset_self (base : UInt32) : offset base base = 0 := by
  rw [offset, sub_self]
  rfl

theorem offset_inj (h : offset base a = offset base b) : a = b := by
  have h' := toNat_inj.mp h
  rw [← UInt32.sub_add_cancel a base, h', UInt32.sub_add_cancel]

theorem toNat_sub_of_offset_le (base : UInt32) {a b : UInt32} (h : offset base b ≤ offset base a) :
    (a - b).toNat = offset base a - offset base b := by
  have := a.toNat_lt
  have := b.toNat_lt
  have := base.toNat_lt
  simp only [offset, toNat_sub] at h ⊢
  split_ifs at h ⊢ <;> omega

theorem toNat_sub_of_offset_lt (base : UInt32) {a b : UInt32} (h : offset base a < offset base b) :
    (a - b).toNat = offset base a + 2 ^ 32 - offset base b := by
  have := a.toNat_lt
  have := b.toNat_lt
  have := base.toNat_lt
  simp only [offset, toNat_sub] at h ⊢
  split_ifs at h ⊢ <;> omega

theorem offset_succ (h : offset base a + 1 < 2 ^ 32) : offset base (a + 1) = offset base a + 1 := by
  have hcomm : a + 1 - base = (a - base) + 1 := by
    rw [sub_eq_add_neg, sub_eq_add_neg, add_assoc, add_comm 1,
      ← add_assoc]
  rw [offset, hcomm]
  exact toNat_succ h

end

end Serial
