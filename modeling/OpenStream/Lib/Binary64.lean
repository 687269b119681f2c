import OpenStream.Lib.F64
import OpenStream.Lib.Rounding

/-!
# Double-precision arithmetic, as numbers

The value of a finite double is a rational number. A sum, a difference or a product is a rounding
of the exact result, or an infinity when that is beyond the greatest double.

* **`isRound_add`**, **`isRound_sub`**, **`isRound_mul`**: the operations round.
* **`le_iff`**, **`lt_iff`**: comparisons are those of the values.
* **`le_add`**, **`mul_le`**: what a sum and a part of a number are at least and at most.
-/

namespace Binary64

open Float.Model Float.Model.UnpackedFloat
open Format (binary64)
open BitVec (ofNat toNat toNat_ofNat)

variable {s : Sign} {m : ℕ} {e : ℤ} {q : ℚ} {u v : UnpackedFloat} {x y : Float}

/-! ## Unpacked doubles -/

def signed : Sign → ℚ → ℚ
  | .negative, q => -q
  | .positive, q => q

def value : UnpackedFloat → ℚ
  | .finite s m e _ => signed s (m * (2 : ℚ) ^ e)
  | _ => 0

/-- The greatest finite double. -/
def greatest : ℚ := (2 ^ 53 - 1) * 2 ^ 971

/-- An unpacked double that a bit pattern can hold. -/
inductive Held : UnpackedFloat → Prop
  | notANumber : Held .notANumber
  | infinity (s : Sign) : Held (.infinity s)
  | zero (s : Sign) : Held (.zero s)
  | finite {s : Sign} {m : ℕ} {e : ℤ} (hm : 0 < m) (hc : Canonical m e) (he : e ≤ 971) :
      Held (.finite s m e hm)

theorem toNat_append_one (v : BitVec 52) : (1#1 ++ v).toNat = 2 ^ 52 + v.toNat := by
  rw [BitVec.toNat_append, ← Nat.shiftLeft_add_eq_or_of_lt v.isLt]
  rfl

/-- **Every bit pattern holds such a double.** -/
theorem held_unpack (b : BitVec 64) : Held (UnpackedFloat.unpack binary64 b) := by
  have hexp := (@unpackExponent binary64 b).isLt
  have hmant := (@unpackMantissa binary64 b).isLt
  have hone := toNat_append_one (@unpackMantissa binary64 b)
  have hbias : (binary64.exponentBias : ℤ) = 1023 := rfl
  unfold UnpackedFloat.unpack
  dsimp only at hexp hmant hone ⊢
  rw [hbias]
  split_ifs with hall hzero hsub hfrac
  · exact .infinity _
  · exact .notANumber
  · exact .zero _
  · rw [hsub]
    exact .finite _ ⟨hmant.trans (by norm_num), by norm_num, .inr (by norm_num)⟩ (by norm_num)
  · have hne : (@unpackExponent binary64 b).toNat ≠ 2047 := fun h =>
      hall (BitVec.eq_of_toNat_eq (h.trans rfl))
    have hpos : (@unpackExponent binary64 b).toNat ≠ 0 := fun h =>
      hsub (BitVec.eq_of_toNat_eq (h.trans rfl))
    refine .finite _ ⟨?_, ?_, .inl ?_⟩ ?_ <;> push_cast <;> omega

/-! ## Packing -/

def settle (u : UnpackedFloat) : UnpackedFloat :=
  UnpackedFloat.unpack binary64 (UnpackedFloat.pack binary64 u)

theorem settle_infinity (s : Sign) : settle (.infinity s) = .infinity s := by cases s <;> rfl

theorem settle_zero (s : Sign) : settle (.zero s) = .zero s := by cases s <;> rfl

theorem settle_overflow (hm : 0 < m) (he : 971 < e) : settle (.finite s m e hm) = .infinity s := by
  have hbias : (binary64.exponentBias : ℤ) = 1023 := rfl
  have hbig : 2 ^ binary64.exponentBits ≤
      (e + binary64.exponentBias +
        binary64.mantissaBitsWithoutImplicit).toNat + 1 := by
    show 2048 ≤ (e + 1023 + 52).toNat + 1
    omega
  rw [settle, UnpackedFloat.pack]
  rw [if_pos hbig]
  exact settle_infinity s

theorem settle_finite (hm : 0 < m) (hc : Canonical m e)
    (he : e ≤ 971) : settle (.finite s m e hm) = .finite s m e hm := by
  have hbias : (binary64.exponentBias : ℤ) = 1023 := rfl
  obtain ⟨hsmall, hleast, hnormal⟩ := hc
  obtain ⟨b, hb⟩ : ∃ b : ℕ, (b : ℤ) = e + 1075 := ⟨(e + 1075).toNat, by omega⟩
  have hbiased : (e + binary64.exponentBias +
      binary64.mantissaBitsWithoutImplicit).toNat = b := by
    show (e + 1023 + 52).toNat = b
    omega
  have hfits : ¬2 ^ binary64.exponentBits ≤ b + 1 := by
    show ¬2048 ≤ b + 1
    omega
  rw [settle, UnpackedFloat.pack]
  rw [hbiased, if_neg hfits]
  by_cases hn : 2 ^ 52 ≤ m
  · have hlog : m.log2 + 1 = binary64.mantissaBits := by
      have h1 := (Nat.le_log2 hm.ne').mpr hn
      have h2 := (Nat.log2_lt hm.ne').mpr hsmall
      show m.log2 + 1 = 53
      omega
    have hexp : (ofNat 11 b).toNat = b := by
      rw [toNat_ofNat, Nat.mod_eq_of_lt (by omega)]
    have hmant : (1#1 ++ ofNat 52 m).toNat = m := by
      rw [toNat_append_one, toNat_ofNat]
      omega
    have hne : ofNat 11 b ≠ -1#11 := fun h => by
      have := congrArg toNat h
      rw [hexp] at this
      have : b = 2047 := this
      omega
    have hpos : ofNat 11 b ≠ 0#11 := fun h => by
      have := congrArg toNat h
      rw [hexp] at this
      have : b = 0 := this
      omega
    rw [if_pos hlog, UnpackedFloat.unpack]
    simp only [unpackMantissa_packComponents, unpackExponent_packComponents,
      unpackSign_packComponents, Sign.ofBitVec_toBitVec]
    rw [if_neg hne, if_neg hpos]
    congr 1
    push_cast
    omega
  · have hmin : e = -1074 := hnormal.resolve_left hn
    have hlog : ¬m.log2 + 1 = binary64.mantissaBits := by
      have := (Nat.log2_lt hm.ne').mpr (Nat.lt_of_not_le hn)
      show ¬m.log2 + 1 = 53
      omega
    have hmant : (ofNat 52 m).toNat = m := by
      rw [toNat_ofNat, Nat.mod_eq_of_lt (Nat.lt_of_not_le hn)]
    have hpos : ofNat 52 m ≠ 0#52 := fun h => by
      have := congrArg toNat h
      rw [hmant] at this
      exact hm.ne' this
    rw [if_neg hlog, UnpackedFloat.unpack]
    simp only [unpackMantissa_packComponents, unpackExponent_packComponents,
      unpackSign_packComponents, Sign.ofBitVec_toBitVec]
    rw [if_neg (by decide), if_pos trivial, dif_neg hpos]
    congr 1
    rw [hmin]
    rfl

theorem settle_roundsTo (h : RoundsTo q s u) :
    (settle u = u ∧ Held u) ∨ (settle u = .infinity s ∧ greatest < q) := by
  cases h with
  | zero _ => exact .inl ⟨settle_zero s, .zero s⟩
  | @finite m e hm hc hround =>
    by_cases he : e ≤ 971
    · exact .inl ⟨settle_finite hm hc he, .finite hm hc he⟩
    · refine .inr ⟨settle_overflow hm (not_le.mp he), ?_⟩
      by_contra hle
      have hrep : Representable greatest :=
        ⟨2 ^ 53 - 1, 971, by norm_num, by norm_num, by rw [greatest]; norm_num⟩
      have hm52 : 2 ^ 52 ≤ m := hc.normal.resolve_right (by omega)
      have hm52' : (2 : ℚ) ^ 52 ≤ m := by exact_mod_cast hm52
      have hpow : (2 : ℚ) ^ (972 : ℤ) ≤ 2 ^ e := zpow_le_zpow_right₀ (by norm_num) (by omega)
      have hbig : (2 : ℚ) ^ 52 * 2 ^ (972 : ℤ) ≤ m * 2 ^ e := by gcongr
      have hbound := ((hround greatest hrep).1 (not_lt.mp hle))
      have hlt : greatest < (2 : ℚ) ^ 52 * 2 ^ (972 : ℤ) := by
        have hdouble : (2 : ℚ) ^ (972 : ℤ) = 2 * 2 ^ 971 := by
          rw [show (972 : ℤ) = ((971 + 1 : ℕ) : ℤ) from rfl, zpow_natCast, pow_succ']
        have hpos : (0 : ℚ) < 2 ^ 971 := by positivity
        rw [greatest, hdouble]
        generalize (2 : ℚ) ^ 971 = w at hpos
        linarith
      exact absurd (hbig.trans hbound) (not_le.mpr hlt)

/-! ## Doubles -/

def un (x : Float) : UnpackedFloat := x.toModel.unpack

theorem held_un (x : Float) : Held (un x) := held_unpack _

/-- The value of a double, where it is finite. -/
def val (x : Float) : ℚ := value (un x)

theorem isFinite_eq (x : Float) : x.isFinite = (un x).isFinite := rfl

theorem un_add (x y : Float) :
    un (x + y) = settle (UnpackedFloat.add binary64 (un x) (un y)) :=
  rfl

theorem un_sub (x y : Float) :
    un (x - y) = settle (UnpackedFloat.sub binary64 (un x) (un y)) :=
  rfl

theorem un_mul (x y : Float) :
    un (x * y) = settle (UnpackedFloat.mul binary64 (un x) (un y)) :=
  rfl

/-- A rounding of `q`: a finite double next to it, or an infinity when it is out of range. -/
inductive IsRound (q : ℚ) (x : Float) : Prop
  | finite (hx : x.isFinite = true) (h : Rounded q (val x))
  | above (h : greatest < q) (hx : un x = .infinity .positive)
  | below (h : q < -greatest) (hx : un x = .infinity .negative)

theorem RoundsTo.value (h : RoundsTo q s u) :
    u.isFinite = true ∧ Rounded (signed s q) (Binary64.value u) := by
  cases h with
  | zero h =>
    refine ⟨rfl, ?_⟩
    cases s with
    | positive => exact h
    | negative =>
      have := h.neg
      rwa [neg_zero] at this
  | finite hm hc h =>
    refine ⟨rfl, ?_⟩
    cases s with
    | positive => exact h
    | negative => exact h.neg

theorem isRound_of_roundsTo {r : ℚ}
    (hx : un x = settle u) (h : RoundsTo q s u) (hr : signed s q = r) : IsRound r x := by
  obtain ⟨hfin, hround⟩ := h.value
  rcases settle_roundsTo h with ⟨hsame, -⟩ | ⟨hinf, hbig⟩
  · rw [hsame] at hx
    refine .finite (by rw [isFinite_eq, hx, hfin]) ?_
    rw [val, hx, ← hr]
    exact hround
  · rw [hinf] at hx
    cases s with
    | positive => exact .above (hr ▸ hbig) hx
    | negative =>
      refine .below ?_ hx
      rw [← hr]
      exact neg_lt_neg hbig

theorem isRound_of_held (hx : un x = settle u) (hu : Held u)
    (hfin : u.isFinite = true) : IsRound (value u) x := by
  have hsame : settle u = u := by
    cases hu with
    | notANumber | infinity s => cases hfin
    | zero s => exact settle_zero s
    | finite hm hc he => exact settle_finite hm hc he
  rw [hsame] at hx
  refine .finite (by rw [isFinite_eq, hx, hfin]) ?_
  rw [val, hx]
  exact .refl _

/-! ## Sums and differences -/

theorem decreaseExponent_value (m : ℕ) {t : ℤ} :
    ((decreaseExponent m e t).1 : ℚ) * 2 ^ (decreaseExponent m e t).2 = m * (2 : ℚ) ^ e := by
  simp only [decreaseExponent, Nat.shiftLeft_eq]
  rw [zpow_sub₀ (by norm_num), zpow_natCast]
  push_cast
  field_simp

theorem log2_shifted (hm : m ≠ 0) (k : ℕ) : (m * 2 ^ k).log2 = m.log2 + k := by
  rw [Nat.log2_eq_iff (by positivity), pow_add, show m.log2 + k + 1 = m.log2 + 1 + k by omega,
    pow_add (m := m.log2 + 1)]
  exact ⟨Nat.mul_le_mul_right _ (Nat.log2_self_le hm),
    Nat.mul_lt_mul_of_pos_right Nat.lt_log2_self (by positivity)⟩

theorem roundsTo_round (hm : 0 < m) (e : ℤ) (s : Sign) :
    RoundsTo (m * (2 : ℚ) ^ e) s (UnpackedFloat.round binary64 s m e) := by
  rw [UnpackedFloat.round]
  rw [targetExponent_eq, totalExponent]
  set t := max ((m.log2 : ℤ) + 1 + e - 53) (-1074) with ht
  rw [← decreaseExponent_value m (e := e) (t := t)]
  refine roundsTo_roundWithAccuracy s (show Approximates _ _ .exact from rfl) ?_
  simp only [decreaseExponent, Nat.shiftLeft_eq, log2_shifted hm.ne']
  omega

theorem roundsTo_normalize (k e : ℤ) :
    ∃ s q, RoundsTo q s (UnpackedFloat.normalize binary64 k e .positive) ∧
      signed s q = k * (2 : ℚ) ^ e := by
  rw [UnpackedFloat.normalize]
  rcases lt_trichotomy k 0 with hk | hk | hk
  · rw [compare_lt_iff_lt.mpr hk]
    refine ⟨.negative, _, roundsTo_round (by omega) e .negative, ?_⟩
    have : (((-k).toNat : ℕ) : ℚ) = -k := by exact_mod_cast Int.toNat_of_nonneg (by omega)
    rw [signed, this]
    ring
  · rw [compare_eq_iff_eq.mpr hk]
    refine ⟨.positive, 0, .zero (.refl 0), ?_⟩
    rw [signed, hk]
    simp
  · rw [compare_gt_iff_gt.mpr hk]
    refine ⟨.positive, _, roundsTo_round (by omega) e .positive, ?_⟩
    have : ((k.toNat : ℕ) : ℚ) = k := by exact_mod_cast Int.toNat_of_nonneg hk.le
    rw [signed, this]

theorem signed_apply (s : Sign) (m : ℕ) : ((s.apply m : ℤ) : ℚ) = signed s m := by
  cases s <;> simp [Sign.apply, signed]

theorem signed_mul (s : Sign) (p q : ℚ) : signed s (p * q) = signed s p * q := by
  cases s <;> simp [signed]

theorem aligned (s : Sign) (m : ℕ) {f : ℤ} (hf : f ≤ e) :
    ((s.apply ((decreaseExponent m e f).1 : ℤ) : ℤ) : ℚ) * (2 : ℚ) ^ f =
      signed s (m * (2 : ℚ) ^ e) := by
  have hexp : (decreaseExponent m e f).2 = f := by
    simp only [decreaseExponent]
    omega
  have hval := decreaseExponent_value m (e := e) (t := f)
  rw [hexp] at hval
  rw [signed_apply, ← signed_mul, hval]

/-- **A packed sum rounds the sum.** -/
theorem isRound_of_add {z : Float} (hu : Held u) (hv : Held v)
    (hfu : u.isFinite = true) (hfv : v.isFinite = true)
    (hz : un z = settle (UnpackedFloat.add binary64 u v)) :
    IsRound (value u + value v) z := by
  cases hu with
  | notANumber => cases hfu
  | infinity s => cases hfu
  | zero s =>
    cases hv with
    | notANumber => cases hfv
    | infinity s => cases hfv
    | zero s' =>
      obtain ⟨sign, hsign⟩ : ∃ sign, UnpackedFloat.add binary64 (.zero s) (.zero s') =
          .zero sign := by
        simp only [UnpackedFloat.add]
        split <;> exact ⟨_, rfl⟩
      rw [hsign] at hz
      have hround := isRound_of_held hz (.zero sign) rfl
      rwa [show value (.zero s) = 0 from rfl, zero_add]
    | finite hm hc he =>
      rw [show value (.zero s) = 0 from rfl, zero_add]
      exact isRound_of_held hz (.finite hm hc he) rfl
  | @finite s m e hm hc he =>
    cases hv with
    | notANumber => cases hfv
    | infinity s => cases hfv
    | zero s' =>
      rw [show value (.zero s') = 0 from rfl, add_zero]
      exact isRound_of_held hz (.finite hm hc he) rfl
    | @finite s' m' e' hm' hc' he' =>
      obtain ⟨sign, q, hround, hq⟩ := roundsTo_normalize
        (s.apply (decreaseExponent m e (min e e')).1 +
          s'.apply (decreaseExponent m' e' (min e e')).1) (min e e')
      refine isRound_of_roundsTo hz hround (hq.trans ?_)
      push_cast
      rw [add_mul, aligned s m (min_le_left e e'), aligned s' m' (min_le_right e e')]
      rfl

/-- **Sums round.** -/
theorem isRound_add (hx : x.isFinite = true) (hy : y.isFinite = true) :
    IsRound (val x + val y) (x + y) :=
  isRound_of_add (held_un x) (held_un y) hx hy (un_add x y)

theorem Held.neg (h : Held u) : Held u.neg := by
  cases h with
  | notANumber => exact .notANumber
  | infinity s => exact .infinity _
  | zero s => exact .zero _
  | finite hm hc he => exact .finite hm hc he

theorem value_neg (u : UnpackedFloat) : value u.neg = -value u := by
  cases u with
  | notANumber | infinity s | zero s => exact neg_zero.symm
  | finite s m e hm =>
    cases s with
    | positive => rfl
    | negative => exact (neg_neg _).symm

theorem unpacked_sub (u v : UnpackedFloat) :
    UnpackedFloat.sub binary64 u v = UnpackedFloat.add binary64 u v.neg := by
  cases u <;> cases v <;> try rfl
  rename_i s m e hm s' m' e' hm'
  have happly : ∀ k : ℤ, (-s').apply k = -s'.apply k := by
    intro k
    cases s' with
    | positive => rfl
    | negative => exact (neg_neg k).symm
  simp [UnpackedFloat.sub, UnpackedFloat.add, UnpackedFloat.neg, happly, Int.sub_eq_add_neg]

/-- **Differences round.** -/
theorem isRound_sub (hx : x.isFinite = true) (hy : y.isFinite = true) :
    IsRound (val x - val y) (x - y) := by
  have hneg : (un y).neg.isFinite = true := by
    rw [isFinite_eq] at hy
    revert hy
    cases un y <;> exact fun h => h
  have := isRound_of_add (held_un x) (held_un y).neg hx hneg
    ((un_sub x y).trans (congrArg settle (unpacked_sub _ _)))
  rwa [value_neg, ← sub_eq_add_neg] at this

/-! ## Products -/

theorem signed_mul_signed (s s' : Sign) (p q : ℚ) :
    signed (s * s') (p * q) = signed s p * signed s' q := by
  cases s with
  | positive =>
    cases s' with
    | positive => rfl
    | negative => exact (mul_neg p q).symm
  | negative =>
    cases s' with
    | positive => exact (neg_mul p q).symm
    | negative => exact (neg_mul_neg p q).symm

/-- The product of two mantissas has the digits that rounding asks for. -/
theorem Canonical.mul {m' : ℕ} {e' : ℤ} (hc : Canonical m e) (hc' : Canonical m' e')
    (hm : 0 < m) (hm' : 0 < m') : 52 ≤ (m * m').log2 ∨ e + e' ≤ -1074 := by
  by_cases h : 2 ^ 52 ≤ m * m'
  · exact .inl ((Nat.le_log2 (Nat.mul_pos hm hm').ne').mpr h)
  · have he := hc.normal.resolve_left fun hn => h (hn.trans (Nat.le_mul_of_pos_right m hm'))
    have he' := hc'.normal.resolve_left fun hn => h (hn.trans (Nat.le_mul_of_pos_left m' hm))
    omega

/-- **Products round.** -/
theorem isRound_mul (hx : x.isFinite = true) (hy : y.isFinite = true) :
    IsRound (val x * val y) (x * y) := by
  have hz := un_mul x y
  have hu := held_un x
  have hv := held_un y
  rw [isFinite_eq] at hx hy
  unfold val
  generalize un x = u at *
  generalize un y = v at *
  cases hu with
  | notANumber => cases hx
  | infinity s => cases hx
  | zero s =>
    rw [show value (.zero s) = 0 from rfl, zero_mul]
    cases hv with
    | notANumber => cases hy
    | infinity s' => cases hy
    | zero s' | @finite s' => exact isRound_of_held hz (.zero (s * s')) rfl
  | @finite s m e hm hc he =>
    cases hv with
    | notANumber => cases hy
    | infinity s' => cases hy
    | zero s' =>
      rw [show value (.zero s') = 0 from rfl, mul_zero]
      exact isRound_of_held hz (.zero (s * s')) rfl
    | @finite s' m' e' hm' hc' he' =>
      refine isRound_of_roundsTo hz (roundsTo_roundWithAccuracy (s * s')
        (show Approximates (m * m') _ .exact from rfl) (hc.mul hc' hm hm')) ?_
      rw [value, value, ← signed_mul_signed, zpow_add₀ (by norm_num)]
      push_cast
      ring_nf

/-! ## Order -/

theorem compare_canonical {m' : ℕ} {e' : ℤ} (hc : Canonical m e) (hc' : Canonical m' e') :
    (compare e e').then (compare m m') = compare (m * (2 : ℚ) ^ e) (m' * (2 : ℚ) ^ e') := by
  -- a greater exponent outweighs every mantissa, since its own has 53 digits
  have hless : ∀ {m m' : ℕ} {e e' : ℤ}, Canonical m e → Canonical m' e' → e < e' →
      (m : ℚ) * 2 ^ e < m' * 2 ^ e' := by
    intro m m' e e' hc hc' hlt
    have hbig : 2 ^ 52 ≤ m' := hc'.normal.resolve_right (by have := hc.least; omega)
    have hmq : (m : ℚ) < 2 ^ 53 := by exact_mod_cast hc.small
    have hmq' : (2 : ℚ) ^ 52 ≤ m' := by exact_mod_cast hbig
    calc (m : ℚ) * 2 ^ e < 2 ^ 53 * 2 ^ e := by gcongr
      _ = 2 ^ 52 * 2 ^ (e + 1) := by rw [zpow_add_one₀ (by norm_num)]; ring
      _ ≤ 2 ^ 52 * 2 ^ e' := by gcongr <;> [norm_num; omega]
      _ ≤ m' * 2 ^ e' := by gcongr
  rcases lt_trichotomy e e' with hlt | rfl | hgt
  · rw [compare_lt_iff_lt.mpr hlt, compare_lt_iff_lt.mpr (hless hc hc' hlt)]
    rfl
  · have hpos : (0 : ℚ) < 2 ^ e := by positivity
    rw [compare_eq_iff_eq.mpr rfl]
    show compare m m' = _
    rcases lt_trichotomy m m' with hlt | rfl | hgt
    · rw [compare_lt_iff_lt.mpr hlt, compare_lt_iff_lt.mpr (by gcongr)]
    · rw [compare_eq_iff_eq.mpr rfl, compare_eq_iff_eq.mpr rfl]
    · rw [compare_gt_iff_gt.mpr hgt, compare_gt_iff_gt.mpr (by show _ < _; gcongr)]
  · rw [compare_gt_iff_gt.mpr hgt, compare_gt_iff_gt.mpr (hless hc' hc hgt)]
    rfl

/-- **Finite doubles compare as their values.** -/
theorem compare_value (hu : Held u) (hv : Held v)
    (hfu : u.isFinite = true) (hfv : v.isFinite = true) :
    u.compare v = some (compare (value u) (value v)) := by
  have hpos : ∀ {m : ℕ} {e : ℤ}, 0 < m → (0 : ℚ) < m * 2 ^ e := by
    intro m e hm
    have : (0 : ℚ) < m := by exact_mod_cast hm
    positivity
  cases hu with
  | notANumber => cases hfu
  | infinity s => cases hfu
  | zero s =>
    cases hv with
    | notANumber => cases hfv
    | infinity s => cases hfv
    | zero s' => exact congrArg some (compare_eq_iff_eq.mpr rfl).symm
    | @finite s' m' e' hm' hc' he' =>
      cases s' with
      | positive => exact congrArg some (compare_lt_iff_lt.mpr (hpos hm')).symm
      | negative => exact congrArg some (compare_gt_iff_gt.mpr (neg_neg_of_pos (hpos hm'))).symm
  | @finite s m e hm hc he =>
    cases hv with
    | notANumber => cases hfv
    | infinity s => cases hfv
    | zero s' =>
      cases s with
      | positive => exact congrArg some (compare_gt_iff_gt.mpr (hpos hm)).symm
      | negative => exact congrArg some (compare_lt_iff_lt.mpr (neg_neg_of_pos (hpos hm))).symm
    | @finite s' m' e' hm' hc' he' =>
      cases s with
      | positive =>
        cases s' with
        | positive => exact congrArg some (compare_canonical hc hc')
        | negative =>
          exact congrArg some
            (compare_gt_iff_gt.mpr ((neg_neg_of_pos (hpos hm')).trans (hpos hm))).symm
      | negative =>
        cases s' with
        | positive =>
          exact congrArg some
            (compare_lt_iff_lt.mpr ((neg_neg_of_pos (hpos hm)).trans (hpos hm'))).symm
        | negative =>
          refine congrArg some ?_
          rw [compare_canonical hc hc']
          show _ = compare (-((m : ℚ) * 2 ^ e)) (-((m' : ℚ) * 2 ^ e'))
          rcases lt_trichotomy ((m : ℚ) * 2 ^ e) (m' * 2 ^ e') with h | h | h
          · rw [compare_lt_iff_lt.mpr h, compare_gt_iff_gt.mpr (neg_lt_neg h)]
            rfl
          · rw [h, compare_eq_iff_eq.mpr rfl, compare_eq_iff_eq.mpr rfl]
            rfl
          · rw [compare_gt_iff_gt.mpr h, compare_lt_iff_lt.mpr (neg_lt_neg h)]
            rfl

theorem lt_iff_compare (x y : Float) : x < y ↔ (un x).compare (un y) = some .lt := by
  show decide (x.toModel < y.toModel) = true ↔ _
  rw [decide_eq_true_iff, ← beq_iff_eq]
  rfl

theorem le_iff_compare (x y : Float) : x ≤ y ↔ ((un x).compare (un y)).any (·.isLE) = true := by
  show decide (x.toModel ≤ y.toModel) = true ↔ _
  rw [decide_eq_true_iff]
  rfl

/-- **The order of finite doubles is that of their values.** -/
theorem lt_iff (hx : x.isFinite = true) (hy : y.isFinite = true) : x < y ↔ val x < val y := by
  rw [lt_iff_compare, compare_value (held_un x) (held_un y) hx hy, Option.some_inj,
    compare_lt_iff_lt]
  rfl

theorem le_iff (hx : x.isFinite = true) (hy : y.isFinite = true) : x ≤ y ↔ val x ≤ val y := by
  rw [le_iff_compare, compare_value (held_un x) (held_un y) hx hy, Option.any_some,
    Ordering.isLE_iff_ne_gt]
  exact compare_le_iff_le

/-- The value with both infinities. -/
def ext : UnpackedFloat → WithBot (WithTop ℚ)
  | .infinity .positive => ⊤
  | .infinity .negative => ⊥
  | u => ((value u : WithTop ℚ) : WithBot (WithTop ℚ))

theorem ext_of_isFinite (h : u.isFinite = true) :
    ext u = ((value u : WithTop ℚ) : WithBot (WithTop ℚ)) := by
  cases u with
  | infinity s => cases h
  | notANumber | zero s | finite s m e hm => rfl

theorem compare_coe (p q : ℚ) :
    compare ((p : WithTop ℚ) : WithBot (WithTop ℚ)) ((q : WithTop ℚ) : WithBot (WithTop ℚ)) =
      compare p q := by
  rcases lt_trichotomy p q with h | h | h
  · rw [compare_lt_iff_lt.mpr h, compare_lt_iff_lt]
    exact WithBot.coe_lt_coe.mpr (WithTop.coe_lt_coe.mpr h)
  · rw [h, compare_eq_iff_eq.mpr rfl, compare_eq_iff_eq.mpr rfl]
  · rw [compare_gt_iff_gt.mpr h, compare_gt_iff_gt]
    exact WithBot.coe_lt_coe.mpr (WithTop.coe_lt_coe.mpr h)

theorem kinds (u : UnpackedFloat) :
    u = .notANumber ∨ u = .infinity .positive ∨ u = .infinity .negative ∨ u.isFinite = true := by
  cases u with
  | notANumber => exact .inl rfl
  | infinity s =>
    cases s with
    | positive => exact .inr (.inl rfl)
    | negative => exact .inr (.inr (.inl rfl))
  | zero s | finite s m e hm => exact .inr (.inr (.inr rfl))

/-- **Doubles that are numbers compare as their values with infinities.** -/
theorem compare_ext (hu : Held u) (hv : Held v) (hnu : u ≠ .notANumber)
    (hnv : v ≠ .notANumber) : u.compare v = some (compare (ext u) (ext v)) := by
  have htop : ∀ q : ℚ, ((q : WithTop ℚ) : WithBot (WithTop ℚ)) < ⊤ := fun q =>
    WithBot.coe_lt_coe.mpr (WithTop.coe_lt_top q)
  have hbot : ∀ q : ℚ, ⊥ < ((q : WithTop ℚ) : WithBot (WithTop ℚ)) := fun q => WithBot.bot_lt_coe _
  have hends : (⊥ : WithBot (WithTop ℚ)) < ⊤ := (hbot 0).trans (htop 0)
  rcases (kinds u).resolve_left hnu with rfl | rfl | hfu <;>
    rcases (kinds v).resolve_left hnv with rfl | rfl | hfv
  · exact congrArg some (compare_eq_iff_eq.mpr rfl).symm
  · exact congrArg some (compare_gt_iff_gt.mpr hends).symm
  · rw [ext_of_isFinite hfv]
    cases v <;> first | exact congrArg some (compare_gt_iff_gt.mpr (htop _)).symm | cases hfv
  · exact congrArg some (compare_lt_iff_lt.mpr hends).symm
  · exact congrArg some (compare_eq_iff_eq.mpr rfl).symm
  · rw [ext_of_isFinite hfv]
    cases v <;> first | exact congrArg some (compare_lt_iff_lt.mpr (hbot _)).symm | cases hfv
  · rw [ext_of_isFinite hfu]
    cases u <;> first | exact congrArg some (compare_lt_iff_lt.mpr (htop _)).symm | cases hfu
  · rw [ext_of_isFinite hfu]
    cases u <;> first | exact congrArg some (compare_gt_iff_gt.mpr (hbot _)).symm | cases hfu
  · rw [compare_value hu hv hfu hfv, ext_of_isFinite hfu, ext_of_isFinite hfv, compare_coe]

theorem not_notANumber_of_le (h : x ≤ y) : un x ≠ .notANumber ∧ un y ≠ .notANumber := by
  rw [le_iff_compare] at h
  refine ⟨fun hx => ?_, fun hy => ?_⟩
  · rw [hx] at h
    cases h
  · rw [hy] at h
    generalize un x = u at h
    cases u <;> cases h

/-- **The order of doubles**, infinities included. -/
theorem le_iff_ext (hx : un x ≠ .notANumber) (hy : un y ≠ .notANumber) :
    x ≤ y ↔ ext (un x) ≤ ext (un y) := by
  rw [le_iff_compare, compare_ext (held_un x) (held_un y) hx hy, Option.any_some,
    Ordering.isLE_iff_ne_gt]
  exact compare_le_iff_le

theorem lt_iff_ext (hx : un x ≠ .notANumber) (hy : un y ≠ .notANumber) :
    x < y ↔ ext (un x) < ext (un y) := by
  rw [lt_iff_compare, compare_ext (held_un x) (held_un y) hx hy, Option.some_inj, compare_lt_iff_lt]

theorem le_of_lt (h : x < y) : x ≤ y := by
  rw [lt_iff_compare] at h
  rw [le_iff_compare, h]
  rfl

theorem le_of_not_lt (hx : un x ≠ .notANumber) (hy : un y ≠ .notANumber) (h : ¬x < y) : y ≤ x := by
  rw [lt_iff_ext hx hy] at h
  rw [le_iff_ext hy hx]
  exact not_lt.mp h

theorem le_refl (hx : un x ≠ .notANumber) : x ≤ x := (le_iff_ext hx hx).mpr le_rfl

theorem le_trans {z : Float} (hxy : x ≤ y) (hyz : y ≤ z) : x ≤ z := by
  obtain ⟨hx, hy⟩ := not_notANumber_of_le hxy
  obtain ⟨-, hz⟩ := not_notANumber_of_le hyz
  rw [le_iff_ext hx hy] at hxy
  rw [le_iff_ext hy hz] at hyz
  rw [le_iff_ext hx hz]
  exact hxy.trans hyz

theorem ne_notANumber (h : x.isFinite = true) : un x ≠ .notANumber := by
  intro hx
  rw [isFinite_eq, hx] at h
  cases h

theorem IsRound.ne_notANumber (h : IsRound q x) : un x ≠ .notANumber := by
  cases h with
  | finite hx _ => exact Binary64.ne_notANumber hx
  | above _ hx | below _ hx => exact hx ▸ nofun

/-! ## Sums and differences in order -/

theorem representable_val (x : Float) : Representable (val x) := by
  have h := held_un x
  rw [val]
  generalize un x = u at h ⊢
  cases h with
  | notANumber | infinity s | zero s => exact representable_zero
  | @finite s m e hm hc he =>
    cases s with
    | positive => exact hc.representable
    | negative => exact hc.representable.neg

theorem abs_val_le (x : Float) : |val x| ≤ greatest := by
  have h := held_un x
  rw [val]
  generalize un x = u at h ⊢
  have hzero : |(0 : ℚ)| ≤ greatest := by
    rw [abs_zero, greatest]
    positivity
  cases h with
  | notANumber | infinity s | zero s => exact hzero
  | @finite s m e hm hc he =>
    have habs : |value (.finite s m e hm)| = m * (2 : ℚ) ^ e := by
      have hpos : (0 : ℚ) ≤ m * (2 : ℚ) ^ e := by positivity
      cases s with
      | positive => exact abs_of_nonneg hpos
      | negative => exact (abs_neg _).trans (abs_of_nonneg hpos)
    have hsmall : (m : ℚ) + 1 ≤ 2 ^ 53 := by exact_mod_cast hc.small
    have hpow : (2 : ℚ) ^ e ≤ 2 ^ 971 := by
      exact zpow_le_zpow_right₀ (by norm_num) he
    rw [habs, greatest]
    exact mul_le_mul (by linarith) hpow (by positivity) (by norm_num)

theorem exists_multiple (x : Float) : ∃ k : ℤ, val x = k * (2 : ℚ) ^ (-1074 : ℤ) := by
  obtain ⟨k, e, -, he, h⟩ := representable_val x
  refine ⟨k * 2 ^ (e + 1074).toNat, ?_⟩
  have hexp : ((e + 1074).toNat : ℤ) = e + 1074 := Int.toNat_of_nonneg (by omega)
  rw [h, Int.cast_mul, Int.cast_pow, Int.cast_ofNat, ← zpow_natCast, hexp, mul_assoc,
    ← zpow_add₀ (by norm_num), add_neg_cancel_right]

theorem infinity_add (s : Sign) (h : v.isFinite = true) :
    UnpackedFloat.add binary64 (.infinity s) v = .infinity s := by
  cases v <;> first | rfl | cases h

/-- **A sum is at least its summand**, when the other is not negative. -/
theorem le_add (hx : un x ≠ .notANumber) (hy : y.isFinite = true) (h : 0 ≤ val y) : x ≤ x + y := by
  have hinf {s : Sign} (hs : un x = .infinity s) : x ≤ x + y := by
    have hsum : un (x + y) = un x := by
      rw [un_add, hs, infinity_add s (isFinite_eq y ▸ hy), settle_infinity]
    rw [le_iff_ext hx (hsum ▸ hx), hsum]
  rcases (kinds (un x)).resolve_left hx with htop | hbot | hfin
  · exact hinf htop
  · exact hinf hbot
  · have hround := isRound_add hfin hy
    have hn := hround.ne_notANumber
    cases hround with
    | finite hsum hround =>
      rw [le_iff hfin hsum]
      exact (hround _ (representable_val x)).2 (by linarith)
    | above _ hun =>
      rw [le_iff_ext hx hn, hun]
      exact le_top
    | below hlt _ =>
      have := (abs_le.mp (abs_val_le x)).1
      linarith

theorem un_zero : un 0.0 = .zero .positive := rfl

theorem pos_of_infinite (h : un x = .infinity .positive) : 0.0 < x := by
  rw [lt_iff_compare, un_zero, h]
  rfl

theorem infinity_mul (h : 0 < value v) :
    UnpackedFloat.mul binary64 (.infinity .positive) v = .infinity .positive := by
  cases v with
  | notANumber | infinity s | zero s => exact absurd h (lt_irrefl _)
  | finite s m e hm =>
    cases s with
    | positive => rfl
    | negative =>
      have : (0 : ℚ) ≤ m * 2 ^ e := by positivity
      exact absurd h (neg_nonpos.mpr this).not_gt

theorem val_one : val 1.0 = 1 := by
  show ((4503599627370496 : ℕ) : ℚ) * 2 ^ (-52 : ℤ) = 1
  norm_num

/-- **A part of a number** that is not negative is not negative, and at most the number. -/
theorem mul_le (hx : 0.0 ≤ x) (hy : y.isFinite = true) (hpos : 0.0 < y) (hle : y ≤ 1.0) :
    0.0 ≤ x * y ∧ x * y ≤ x := by
  have hpart : 0 < val y := (lt_iff rfl hy).mp hpos
  rw [le_iff hy rfl, val_one] at hle
  rcases (kinds (un x)).resolve_left (not_notANumber_of_le hx).2 with htop | hbot | hfin
  · have hsame : un (x * y) = un x := by rw [un_mul, htop, infinity_mul hpart, settle_infinity]
    rw [le_iff_compare, le_iff_compare, hsame, htop]
    exact ⟨rfl, rfl⟩
  · rw [le_iff_compare, un_zero, hbot] at hx
    cases hx
  · have hzero : 0 ≤ val x := (le_iff rfl hfin).mp hx
    have hnonneg : 0 ≤ val x * val y := mul_nonneg hzero hpart.le
    have hprod : val x * val y ≤ val x := mul_le_of_le_one_right hzero hle
    have hmost := (abs_le.mp (abs_val_le x)).2
    cases isRound_mul hfin hy with
    | finite hz hround =>
      rw [le_iff rfl hz, le_iff hz hfin]
      exact ⟨(hround 0 representable_zero).2 hnonneg, (hround _ (representable_val x)).1 hprod⟩
    | above hgt _ => linarith
    | below hlt _ => linarith

/-- **A positive difference is positive.** -/
theorem sub_pos (hx : x.isFinite = true) (hy : y.isFinite = true) (h : y < x) : 0.0 < x - y := by
  rw [lt_iff hy hx] at h
  obtain ⟨k, hk⟩ := exists_multiple x
  obtain ⟨l, hl⟩ := exists_multiple y
  -- the difference of two multiples of the least double is at least the least double
  have hleast : (2 : ℚ) ^ (-1074 : ℤ) ≤ val x - val y := by
    have hpos : (0 : ℚ) < 2 ^ (-1074 : ℤ) := by positivity
    rw [hk, hl] at h ⊢
    have hlt : (l : ℚ) < k := lt_of_mul_lt_mul_right h hpos.le
    have hstep : (l : ℚ) + 1 ≤ k := by exact_mod_cast hlt
    nlinarith
  have hrep : Representable (2 ^ (-1074 : ℤ)) := ⟨1, -1074, by norm_num, le_rfl, by simp⟩
  cases isRound_sub hx hy with
  | finite hfin hround =>
    rw [lt_iff rfl hfin]
    have hpos : (0 : ℚ) < 2 ^ (-1074 : ℤ) := by positivity
    exact hpos.trans_le ((hround _ hrep).2 hleast)
  | above _ hun => exact pos_of_infinite hun
  | below hlt _ =>
    have := (abs_nonneg (val x)).trans (abs_val_le x)
    linarith

theorem max_zero_of_pos (h : 0.0 < x) : F64.max x 0.0 = x := by
  have hx : un x ≠ .notANumber := by
    intro hx
    rw [lt_iff_compare, hx] at h
    cases h
  have hzero : un 0.0 ≠ .notANumber := by
    exact nofun
  have hself : x ≤ x := le_refl hx
  have hnlt : ¬x < 0.0 := by
    rw [lt_iff_ext hx hzero]
    rw [lt_iff_ext hzero hx] at h
    exact h.le.not_gt
  have hnan : F64.isNaN x = false := by
    show (!decide (x ≤ x)) = false
    simpa using hself
  have hlt : F64.lt x 0.0 = false := decide_eq_false hnlt
  simp [F64.max, hnan, hlt]

theorem infinity_sub (h : v.isFinite = true) :
    UnpackedFloat.sub binary64 (.infinity .positive) v = .infinity .positive := by
  cases v <;> first | rfl | cases h

/-- **No wait is left only once the time has come.** -/
theorem le_of_no_wait (hx : un x ≠ .notANumber) (hy : y.isFinite = true)
    (h : ¬0.0 < F64.max (x - y) 0.0) : x ≤ y := by
  have hny := ne_notANumber hy
  have hdiff : ¬0.0 < x - y := fun hpos => h (by rwa [max_zero_of_pos hpos])
  rcases (kinds (un x)).resolve_left hx with htop | hbot | hfin
  · refine absurd (pos_of_infinite ?_) hdiff
    rw [un_sub, htop, infinity_sub (isFinite_eq y ▸ hy), settle_infinity]
  · rw [le_iff_ext hx hny, hbot]
    exact bot_le
  · rw [le_iff hfin hy]
    by_contra hlt
    exact hdiff (sub_pos hfin hy ((lt_iff hy hfin).mpr (not_le.mp hlt)))

/-! ## Clamped doubles -/

theorem ext_clamp {lo hi : Float} (hx : un x ≠ .notANumber) (h : lo ≤ hi) :
    un (F64.clamp x lo hi) ≠ .notANumber ∧ ext (un (F64.clamp x lo hi)) =
      max (ext (un lo)) (min (ext (un hi)) (ext (un x))) := by
  obtain ⟨hlo, hhi⟩ := not_notANumber_of_le h
  rw [le_iff_ext hlo hhi] at h
  simp only [F64.clamp, F64.lt, decide_eq_true_eq, lt_iff_ext hx hlo, lt_iff_ext hhi hx]
  split_ifs with hl hh
  · exact ⟨hlo, (max_eq_left ((min_le_right _ _).trans hl.le)).symm⟩
  · exact ⟨hhi, by rw [min_eq_left hh.le, max_eq_right h]⟩
  · exact ⟨hx, by rw [min_eq_right (not_lt.mp hh), max_eq_right (not_lt.mp hl)]⟩

theorem clamp_mono {lo hi : Float} (hxy : x ≤ y) (h : lo ≤ hi) :
    F64.clamp x lo hi ≤ F64.clamp y lo hi := by
  obtain ⟨hx, hy⟩ := not_notANumber_of_le hxy
  obtain ⟨hnx, hex⟩ := ext_clamp hx h
  obtain ⟨hny, hey⟩ := ext_clamp hy h
  rw [le_iff_ext hnx hny, hex, hey]
  exact max_le_max le_rfl (min_le_min le_rfl ((le_iff_ext hx hy).mp hxy))

theorem clamp_mem {lo hi : Float} (hx : un x ≠ .notANumber) (h : lo ≤ hi) :
    lo ≤ F64.clamp x lo hi ∧ F64.clamp x lo hi ≤ hi := by
  obtain ⟨hlo, hhi⟩ := not_notANumber_of_le h
  obtain ⟨hn, hclamp⟩ := ext_clamp hx h
  rw [le_iff_ext hlo hn, le_iff_ext hn hhi, hclamp]
  exact ⟨le_max_left _ _, max_le ((le_iff_ext hlo hhi).mp h) (min_le_left _ _)⟩

end Binary64
