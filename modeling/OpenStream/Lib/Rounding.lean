import Mathlib

/-!
# Rounding to double precision

A double has 53 binary digits and no exponent below `-1074`. All that is used of rounding is that it
never crosses a double: a number at most a double rounds to at most that double.

* **`rounded_cell`**
-/

namespace Binary64

open Float.Model Float.Model.UnpackedFloat
open ExtendedMantissa (accuracy ofMantissaAndAccuracy)

variable {q x : ℚ} {m : ℕ} {t e : ℤ} {em : ExtendedMantissa}

/-! ## Representable numbers -/

/-- An integer of 53 binary digits, scaled. -/
def Representable (q : ℚ) : Prop :=
  ∃ k e : ℤ, |k| ≤ 2 ^ 53 ∧ -1074 ≤ e ∧ q = k * (2 : ℚ) ^ e

theorem Representable.neg (h : Representable q) : Representable (-q) := by
  obtain ⟨k, e, hk, he, rfl⟩ := h
  refine ⟨-k, e, by rwa [abs_neg], he, ?_⟩
  push_cast
  ring

theorem representable_int {k : ℤ} (h : |k| ≤ 2 ^ 53) : Representable k :=
  ⟨k, 0, h, by decide, by simp⟩

theorem representable_zero : Representable 0 := by
  simpa using representable_int (k := 0) (by norm_num)

theorem not_inside (hm : 2 ^ 52 ≤ m ∨ t = -1074) {y : ℚ} (hy : Representable y) :
    y ≤ m * (2 : ℚ) ^ t ∨ (m + 1) * (2 : ℚ) ^ t ≤ y := by
  obtain ⟨k, e, hk, he, rfl⟩ := hy
  have htpos : (0 : ℚ) < 2 ^ t := by positivity
  by_cases hte : t ≤ e
  · -- a multiple of the cell's width
    obtain ⟨d, rfl⟩ : ∃ d : ℕ, e = t + d := ⟨(e - t).toNat, by omega⟩
    have hmul : (k : ℚ) * 2 ^ (t + (d : ℤ)) = ((k * 2 ^ d : ℤ) : ℚ) * 2 ^ t := by
      rw [zpow_add₀ (by norm_num), zpow_natCast]
      push_cast
      ring
    rw [hmul]
    rcases lt_or_ge (m : ℤ) (k * 2 ^ d) with hlt | hge
    · right
      gcongr
      exact_mod_cast hlt
    · left
      gcongr
      exact_mod_cast hge
  · -- of a smaller exponent, and so below the cell
    left
    have hnormal : 2 ^ 52 ≤ m := hm.resolve_right (by omega)
    have hkle : (k : ℚ) ≤ 2 ^ 53 := by exact_mod_cast (le_abs_self k).trans hk
    have hstep : (2 : ℚ) ^ e * 2 ≤ 2 ^ t := by
      rw [← zpow_add_one₀ (by norm_num)]
      exact zpow_le_zpow_right₀ (by norm_num) (by omega)
    have hmq : (2 : ℚ) ^ 52 ≤ m := by exact_mod_cast hnormal
    calc (k : ℚ) * 2 ^ e ≤ 2 ^ 53 * 2 ^ e := by gcongr
      _ = 2 ^ 52 * (2 ^ e * 2) := by ring
      _ ≤ 2 ^ 52 * 2 ^ t := by gcongr
      _ ≤ m * 2 ^ t := by gcongr

/-! ## Rounding -/

/-- `z` is on the same side of every representable number as `q`. -/
def Rounded (q z : ℚ) : Prop := ∀ y, Representable y → (q ≤ y → z ≤ y) ∧ (y ≤ q → y ≤ z)

theorem Rounded.refl (q : ℚ) : Rounded q q := fun _ _ => ⟨fun h => h, fun h => h⟩

theorem Rounded.neg {z : ℚ} (h : Rounded q z) : Rounded (-q) (-z) := by
  intro y hy
  obtain ⟨hle, hge⟩ := h (-y) hy.neg
  exact ⟨fun hq => by linarith [hge (by linarith)], fun hq => by linarith [hle (by linarith)]⟩

/-- **Either end of its cell is a rounding of a number**, the upper one unless it is the lower
end. -/
theorem rounded_cell {r : ℕ} (hm : 2 ^ 52 ≤ m ∨ t = -1074)
    (hlo : m * (2 : ℚ) ^ t ≤ q) (hhi : q < (m + 1) * (2 : ℚ) ^ t)
    (hr : r = m ∨ r = m + 1 ∧ q ≠ m * (2 : ℚ) ^ t) : Rounded q (r * (2 : ℚ) ^ t) := by
  have htpos : (0 : ℚ) < 2 ^ t := by positivity
  have hrlo : (m : ℚ) * 2 ^ t ≤ r * 2 ^ t := by
    gcongr
    omega
  have hrhi : (r : ℚ) * 2 ^ t ≤ (m + 1) * 2 ^ t := by
    gcongr
    exact_mod_cast (show r ≤ m + 1 by omega)
  intro y hy
  rcases not_inside hm hy with hle | hge
  · refine ⟨fun hqy => ?_, fun _ => hle.trans hrlo⟩
    have heq : q = m * 2 ^ t := le_antisymm (hqy.trans hle) hlo
    rcases hr with rfl | ⟨-, hne⟩
    · rwa [← heq]
    · exact absurd heq hne
  · exact ⟨fun _ => hrhi.trans hge, fun hyq => absurd (hge.trans hyq) (not_le.mpr hhi)⟩

/-! ## Residual bits -/

/-- A mantissa below `x` by less than one, and exact when no residual bit is set. -/
structure Shows (em : ExtendedMantissa) (x : ℚ) : Prop where
  lo : (em.mantissa : ℚ) ≤ x
  hi : x < em.mantissa + 1
  exact : em.roundBit = false ∧ em.stickyBit = false ↔ x = em.mantissa

theorem Shows.shiftRightOne (h : Shows em x) : Shows em.shiftRightOne (x / 2) := by
  obtain ⟨m, r, s⟩ := em
  obtain ⟨hlo, hhi, hexact⟩ := h
  have hdm : (m : ℚ) = 2 * (m / 2 : ℕ) + (m % 2 : ℕ) := by exact_mod_cast (Nat.div_add_mod m 2).symm
  have hodd : ((m % 2 : ℕ) : ℚ) ≤ 1 := by exact_mod_cast Nat.lt_succ_iff.mp (Nat.mod_lt m two_pos)
  have hnonneg : (0 : ℚ) ≤ (m % 2 : ℕ) := Nat.cast_nonneg _
  refine ⟨?_, ?_, ?_⟩
  · show ((m / 2 : ℕ) : ℚ) ≤ x / 2
    linarith
  · show x / 2 < ((m / 2 : ℕ) : ℚ) + 1
    linarith
  · show (m % 2 != 0) = false ∧ (r || s) = false ↔ x / 2 = (m / 2 : ℕ)
    rw [Bool.or_eq_false_iff, hexact, bne_eq_false_iff_eq]
    constructor
    · rintro ⟨heven, hx⟩
      rw [heven, Nat.cast_zero] at hdm
      linarith
    · intro hx
      have hzero : ((m % 2 : ℕ) : ℚ) = 0 := by linarith
      exact ⟨by exact_mod_cast hzero, by linarith⟩

theorem Shows.shiftRight (h : Shows em x) (k : ℕ) : Shows (em >>> k) (x / 2 ^ k) := by
  show Shows (k.repeat ExtendedMantissa.shiftRightOne em) _
  induction k with
  | zero => simpa [Nat.repeat] using h
  | succ k ih =>
    have hstep := ih.shiftRightOne
    rwa [div_div, ← pow_succ] at hstep

theorem mantissa_shiftRight (em : ExtendedMantissa) (k : ℕ) :
    (em >>> k).mantissa = em.mantissa / 2 ^ k := by
  show (k.repeat ExtendedMantissa.shiftRightOne em).mantissa = _
  induction k with
  | zero => simp [Nat.repeat]
  | succ k ih =>
    show (k.repeat ExtendedMantissa.shiftRightOne em).mantissa / 2 = _
    rw [ih, Nat.div_div_eq_div_mul, pow_succ]

theorem Shows.rounded (h : Shows em x) : em.roundedMantissa = em.mantissa ∨
      em.roundedMantissa = em.mantissa + 1 ∧ x ≠ em.mantissa := by
  have hexact := h.exact
  obtain ⟨m, r, s⟩ := em
  cases r <;> cases s <;>
    simp_all [ExtendedMantissa.roundedMantissa, accuracy,
      Accuracy.roundToNearestEven]
  omega

/-- What an accuracy says about the number a mantissa stands for. -/
def Approximates (m : ℕ) (x : ℚ) : Accuracy → Prop
  | .exact => x = m
  | .inexact _ => (m : ℚ) < x ∧ x < m + 1

theorem Approximates.shows {accuracy : Accuracy} (h : Approximates m x accuracy) :
    Shows (.ofMantissaAndAccuracy m accuracy) x := by
  cases accuracy with
  | exact =>
    have hx : x = m := h
    subst hx
    exact ⟨le_rfl, lt_add_one _, by simp [ofMantissaAndAccuracy]⟩
  | inexact o =>
    obtain ⟨hlo, hhi⟩ : (m : ℚ) < x ∧ x < m + 1 := h
    have hne : x ≠ m := hlo.ne'
    cases o <;> exact ⟨hlo.le, hhi, by simp [ofMantissaAndAccuracy, hne]⟩

/-! ## Shifting to the exponent of the format -/

theorem targetExponent_eq (x : ℤ) : Format.binary64.targetExponent x = max (x - 53) (-1074) := rfl

/-- A mantissa and an exponent as a double has them, with no greatest exponent. -/
structure Canonical (m : ℕ) (e : ℤ) : Prop where
  small : m < 2 ^ 53
  least : -1074 ≤ e
  normal : 2 ^ 52 ≤ m ∨ e = -1074

theorem Canonical.representable (h : Canonical m e) : Representable (m * (2 : ℚ) ^ e) := by
  refine ⟨m, e, ?_, h.least, by simp⟩
  exact_mod_cast h.small.le

theorem canonical_shift {k : ℕ} (ht : t = max ((m.log2 : ℤ) + 1 + e - 53) (-1074))
    (hk : e + k = t) (he : 52 ≤ m.log2 ∨ e ≤ -1074) : Canonical (m / 2 ^ k) t := by
  have hupper : m < 2 ^ (m.log2 + 1) := Nat.lt_log2_self
  refine ⟨?_, by omega, ?_⟩
  · rw [Nat.div_lt_iff_lt_mul (by positivity), ← pow_add]
    exact hupper.trans_le (Nat.pow_le_pow_right two_pos (by omega))
  · by_cases hmin : t = -1074
    · exact .inr hmin
    · left
      have hm : m ≠ 0 := by
        rintro rfl
        rw [Nat.log2_zero] at ht he
        omega
      rw [Nat.le_div_iff_mul_le (by positivity), ← pow_add]
      exact (Nat.pow_le_pow_right two_pos (by omega)).trans (Nat.log2_self_le hm)

theorem shift_canonical (h : m < 2 ^ 53) (he : -1074 ≤ e) :
    shiftToTargetExponent Format.binary64 m e .exact = (⟨m, false, false⟩, e) := by
  have hlog : m.log2 ≤ 52 := by
    by_cases hm : m = 0
    · rw [hm, Nat.log2_zero]
      omega
    · exact Nat.lt_succ_iff.mp ((Nat.log2_lt hm).mpr h)
  have hshift : (Format.binary64.targetExponent (totalExponent m e) - e).toNat = 0 := by
    rw [targetExponent_eq, totalExponent]
    omega
  rw [shiftToTargetExponent, shiftToExponent]
  simp only [hshift]
  exact Prod.ext rfl (add_zero e)

theorem shift_carried (he : -1074 ≤ e) :
    shiftToTargetExponent Format.binary64 (2 ^ 53) e .exact = (⟨2 ^ 52, false, false⟩, e + 1) := by
  have hshift :
      (Format.binary64.targetExponent (totalExponent (2 ^ 53) e) - e).toNat = 1 := by
    rw [targetExponent_eq, totalExponent, Nat.log2_two_pow]
    omega
  rw [shiftToTargetExponent, shiftToExponent]
  simp only [hshift]
  rfl

/-- What rounding leaves: a zero or a finite double whose magnitude is a rounding of `q`. -/
inductive RoundsTo (q : ℚ) (s : Sign) : UnpackedFloat → Prop
  | zero (h : Rounded q 0) : RoundsTo q s (.zero s)
  | finite {m : ℕ} {e : ℤ} (hm : 0 < m) (hc : Canonical m e) (h : Rounded q (m * (2 : ℚ) ^ e)) :
      RoundsTo q s (.finite s m e hm)

theorem RoundsTo.of_mantissa {s : Sign} {r : ℕ} (hr : r ≤ 2 ^ 53)
    (ht : -1074 ≤ t) (hn : 2 ^ 52 ≤ r ∨ t = -1074) (h : Rounded q (r * (2 : ℚ) ^ t)) :
    let shifted := shiftToTargetExponent Format.binary64 r t .exact
    RoundsTo q s (if hz : shifted.1.mantissa = 0 then .zero s
      else .finite s shifted.1.mantissa shifted.2 (Nat.pos_of_ne_zero hz)) := by
  rcases hr.lt_or_eq with hlt | rfl
  · rw [shift_canonical hlt ht]
    dsimp only
    split_ifs with hz
    · rw [hz, Nat.cast_zero, zero_mul] at h
      exact .zero h
    · exact .finite _ ⟨hlt, ht, hn⟩ h
  · rw [shift_carried ht]
    dsimp only
    refine .finite _ ⟨by norm_num, by omega, .inl le_rfl⟩ ?_
    rw [zpow_add_one₀ (by norm_num)]
    convert h using 1
    push_cast
    ring

/-- **The model's rounding of a mantissa is a rounding of the number it approximates.** -/
theorem roundsTo_roundWithAccuracy {accuracy : Accuracy} (s : Sign)
    (hx : Approximates m x accuracy) (he : 52 ≤ m.log2 ∨ e ≤ -1074) :
    RoundsTo (x * (2 : ℚ) ^ e) s (roundWithAccuracy Format.binary64 s m e accuracy) := by
  obtain ⟨t, ht⟩ : ∃ t, t = max ((m.log2 : ℤ) + 1 + e - 53) (-1074) := ⟨_, rfl⟩
  obtain ⟨k, hk⟩ : ∃ k : ℕ, e + k = t := ⟨(t - e).toNat, by omega⟩
  have hshift : (Format.binary64.targetExponent (totalExponent m e) - e).toNat = k := by
    rw [targetExponent_eq, totalExponent, ← ht]
    omega
  have hcell := canonical_shift ht hk he
  have hshows := hx.shows.shiftRight k
  have hmant : (ofMantissaAndAccuracy m accuracy >>> k).mantissa = m / 2 ^ k := by
    rw [mantissa_shiftRight]
    cases accuracy with
    | exact => rfl
    | inexact o => cases o <;> rfl
  have hfirst : shiftToTargetExponent Format.binary64 m e accuracy =
      (ofMantissaAndAccuracy m accuracy >>> k, t) := by
    rw [shiftToTargetExponent, shiftToExponent]
    simp [hshift, hk]
  obtain ⟨hlo, hhi, -⟩ := hshows
  have hrounded := (hx.shows.shiftRight k).rounded
  rw [hmant] at hlo hhi hrounded
  set r := (ofMantissaAndAccuracy m accuracy >>> k).roundedMantissa with hrdef
  -- the number in units of the shifted mantissa
  have hunit : x * (2 : ℚ) ^ e = x / 2 ^ k * 2 ^ t := by
    rw [← hk, zpow_add₀ (by norm_num), zpow_natCast]
    field_simp
  have htpos : (0 : ℚ) < 2 ^ t := by positivity
  have hround : Rounded (x * (2 : ℚ) ^ e) (r * (2 : ℚ) ^ t) := by
    rw [hunit]
    refine rounded_cell hcell.normal ?_ ?_ (hrounded.imp_right fun h => ⟨h.1, ?_⟩)
    · gcongr
    · gcongr
    · exact fun heq => h.2 (mul_right_cancel₀ htpos.ne' heq)
  have hsmall := hcell.small
  have hnormal := hcell.normal
  rw [roundWithAccuracy, hfirst]
  exact RoundsTo.of_mantissa (by omega) hcell.least (by omega) hround

end Binary64
