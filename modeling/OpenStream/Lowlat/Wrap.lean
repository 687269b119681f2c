import OpenStream.Lowlat.RecvWindow

/-!
# The receive ring at the sequence wrap

A channel that starts at `s` gives position `p` the sequence number `s + p`, which wraps.
Comparisons see differences only, so they are the same for every start; slots are remainders of the
wrapped number, and are not.

* **`wrap_independent`**
* **`wrap_differs`**
-/

namespace OpenStream.Lowlat

open Bytes UInt32 Lowlat.Seq

/-! ## Positions -/

/-- The sequence number of a position of a channel that starts at `s`. -/
def seqAt (s : UInt32) (p : ℕ) : UInt32 := s + UInt32.ofNat p

theorem seqAt_zero_left {p : ℕ} : seqAt 0 p = ofNat p := zero_add _

theorem seqAt_zero (s : UInt32) : seqAt s 0 = s := add_zero s

theorem seqAt_add (s : UInt32) (p k : ℕ) : seqAt s p + ofNat k = seqAt s (p + k) := by
  rw [seqAt, add_assoc, Serial.ofNat_add, seqAt]

theorem seqAt_succ (s : UInt32) (p : ℕ) : seqAt s p + 1 = seqAt s (p + 1) := seqAt_add s p 1

theorem seqAt_sub (s : UInt32) (p q : ℕ) :
    seqAt s p - seqAt s q = UInt32.ofNat p - UInt32.ofNat q := by
  apply UInt32.toNat_inj.mp
  simp only [seqAt, UInt32.toNat_sub, UInt32.toNat_add]
  have := (UInt32.ofNat q).toNat_lt
  omega

theorem seqAt_sub_start (s : UInt32) (p : ℕ) : seqAt s p - s = UInt32.ofNat p := by
  rw [seqAt, UInt32.add_comm, UInt32.add_sub_cancel]

variable {s : UInt32}

theorem seqAt_inj {p q : ℕ} (hp : p < 2 ^ 32) (hq : q < 2 ^ 32) :
    seqAt s p = seqAt s q ↔ p = q := by
  refine ⟨fun h => ?_, fun h => h ▸ rfl⟩
  exact Serial.ofNat_inj (add_right_inj s |>.mp h) (by omega) (by omega)

theorem toNat_seqAt_sub {p q : ℕ} (h : q ≤ p) (hp : p < 2 ^ 32) :
    (seqAt s p - seqAt s q).toNat = p - q := by
  rw [seqAt_sub]
  exact Serial.toNat_sub_ofNat h (by omega)

theorem gt_seqAt_iff {p q : ℕ} (hp : p < q + 2 ^ 31) (hq : q ≤ p + 2 ^ 31) :
    gt (seqAt s p) (seqAt s q) = true ↔ q < p := by
  rw [gt_eq, Serial.sgt, decide_eq_true_iff, seqAt_sub]
  rcases Nat.lt_or_ge p q with h | h
  · rw [Serial.toNat_sub_ofNat_of_lt h (by omega)]
    omega
  · rw [Serial.toNat_sub_ofNat h (by omega)]
    omega

theorem seqAt_toNat_sub (s x : UInt32) : seqAt s (x - s).toNat = x := by
  rw [seqAt, UInt32.ofNat_toNat, UInt32.add_comm, UInt32.sub_add_cancel]

theorem add_ofNat_sub {x : UInt32} {j : ℕ} (h : (x - s).toNat ≤ j) :
    x + ofNat (j - (x - s).toNat) = seqAt s j := by
  have hadd := seqAt_add s (x - s).toNat (j - (x - s).toNat)
  rwa [seqAt_toNat_sub, Nat.add_sub_cancel' h] at hadd

def slotOf (n : ℕ) [NeZero n] (s : UInt32) (p : ℕ) : Fin n := slotIndex n (seqAt s p)

theorem slotOf_seqAt {n : ℕ} [NeZero n] (s : UInt32) (k p : ℕ) :
    slotOf n (seqAt s k) p = slotOf n s (k + p) :=
  congrArg (slotIndex n) (seqAt_add s k p)

/-- No two positions from `d` to `w` share a slot. -/
def Apart (n : ℕ) [NeZero n] (s : UInt32) (d w : ℕ) : Prop :=
  ∀ p q, d ≤ p → p < w → d ≤ q → q < w → slotOf n s p = slotOf n s q → p = q

section Apart

variable {n : ℕ} [NeZero n] {s : UInt32} {d w : ℕ}

theorem Apart.mono (h : Apart n s d w) {d' w' : ℕ} (hd : d ≤ d') (hw : w' ≤ w) : Apart n s d' w' :=
  fun p q h1 h2 h3 h4 => h p q (hd.trans h1) (h2.trans_le hw) (hd.trans h3) (h4.trans_le hw)

theorem Apart.rest (h : Apart n s 0 w) (k : ℕ) : Apart n (seqAt s k) 0 (w - k) := by
  intro p q _ hp _ hq heq
  rw [slotOf_seqAt, slotOf_seqAt] at heq
  have := h (k + p) (k + q) (Nat.zero_le _) (by omega) (Nat.zero_le _) (by omega) heq
  omega

theorem apart_zero (hw : w ≤ d + n) (hmax : w ≤ 2 ^ 32) : Apart n 0 d w := by
  intro p q h1 h2 h3 h4 heq
  have hval := congrArg Fin.val heq
  simp only [slotOf, slotIndex, seqAt_zero_left, Fin.val_ofNat] at hval
  rw [Serial.toNat_ofNat_lt (by omega), Serial.toNat_ofNat_lt (by omega)] at hval
  exact Serial.slot_inj hval (by omega) (by omega)

end Apart

namespace RecvRing

variable {n : ℕ} [NeZero n]

/-! ## One ring at its positions -/

/-- The cursors of a ring stand at positions, and only positions between them are occupied. -/
structure Based (s : UInt32) (r : RecvRing n) (d c h : ℕ) : Prop where
  delivered : r.delivered = seqAt s d
  cumulative : r.cumulative = seqAt s c
  highest : r.highest = seqAt s h
  apart : Apart n s d h
  clear : ∀ i, (r.slot i).ready = true → ∃ p, d ≤ p ∧ p < h ∧ i = slotOf n s p

section Based

variable {s : UInt32} {r : RecvRing n} {d c h : ℕ}

theorem Based.resetTo (r : RecvRing n) (s : UInt32) : Based s (r.resetTo s) 0 0 0 where
  delivered := (seqAt_zero s).symm
  cumulative := (seqAt_zero s).symm
  highest := (seqAt_zero s).symm
  apart _ _ _ hp := absurd hp (Nat.not_lt_zero _)
  clear _ hready := absurd hready (by simp [RecvRing.resetTo])

theorem ready_eq (r : RecvRing n) (x : UInt32) :
    (r.slot (slotIndex n x)).ready = (r.slotBody x).isSome := by
  unfold slotBody
  cases hr : (r.slot (slotIndex n x)).ready <;> simp

theorem slotBody_congr {r r' : RecvRing n} {x : UInt32}
    (h : r.slot (slotIndex n x) = r'.slot (slotIndex n x)) : r.slotBody x = r'.slotBody x := by
  unfold slotBody
  rw [h]

theorem Based.slotBody_eq_none (hb : Based s r d c h) {w p : ℕ} (hw : Apart n s d w) (hhw : h ≤ w)
    (hp : h ≤ p) (hpw : p < w) (hd : d ≤ h) : r.slotBody (seqAt s p) = none := by
  rw [← Option.not_isSome_iff_eq_none, ← ready_eq]
  intro hready
  obtain ⟨q, hq1, hq2, heq⟩ := hb.clear _ hready
  have := hw p q (hd.trans hp) hpw hq1 (hq2.trans_le hhw) heq
  omega

theorem Based.place (hb : Based s r d c h) {k : ℕ} (hk : d ≤ k) (hd : d ≤ h) (hh : h ≤ 2 ^ 31)
    (hfar : k + 1 < d + 2 ^ 31) (hw : Apart n s d (max h (k + 1))) (body : Str) :
    Based s (r.place (seqAt s k) body) d c (max h (k + 1)) where
  __ := hb
  highest := by
    unfold RecvRing.place
    rw [seqAt_succ, hb.highest]
    have hgt := gt_seqAt_iff (s := s) (p := k + 1) (q := h) (by omega) (by omega)
    split_ifs with hif
    · rw [max_eq_right (hgt.mp hif).le]
    · rw [max_eq_left (not_lt.mp (mt hgt.mpr hif))]
  apart := hw
  clear i hready := by
    by_cases hi : i = slotOf n s k
    · exact ⟨k, hk, by omega, hi⟩
    · have hslot : (r.place (seqAt s k) body).slot i = r.slot i := Function.update_of_ne hi _ _
      have hold : (r.slot i).ready = true := hslot ▸ hready
      obtain ⟨p, hp1, hp2, heq⟩ := hb.clear i hold
      exact ⟨p, hp1, by omega, heq⟩

theorem slotBody_place {k p : ℕ} {w : ℕ} (hw : Apart n s d w) (hk : d ≤ k) (hkw : k < w)
    (hp : d ≤ p) (hpw : p < w) (body : Str) :
    (r.place (seqAt s k) body).slotBody (seqAt s p) =
      if p = k then some body else r.slotBody (seqAt s p) := by
  by_cases hpk : p = k
  · subst hpk
    simp [RecvRing.slotBody, RecvRing.place]
  · rw [if_neg hpk]
    apply slotBody_congr
    have hne : slotIndex n (seqAt s p) ≠ slotIndex n (seqAt s k) :=
      fun heq => hpk (hw p k hp hpw hk hkw heq)
    exact Function.update_of_ne hne _ _

theorem Based.release (hb : Based s r d c h) (k : ℕ) : Based s (r.release k) (d + k) c h where
  delivered := by
    change r.delivered + ofNat k = _
    rw [hb.delivered, seqAt_add]
  __ := hb
  apart := hb.apart.mono (Nat.le_add_right d k) le_rfl
  clear i hready := by
    rw [slot_release] at hready
    split_ifs at hready with hcleared
    obtain ⟨p, hp1, hp2, heq⟩ := hb.clear i hready
    refine ⟨p, ?_, hp2, heq⟩
    by_contra hlt
    refine hcleared ⟨p - d, by omega, ?_⟩
    rw [hb.delivered, seqAt_add, Nat.add_sub_cancel' hp1]
    exact heq

theorem Based.slotBody_release (hb : Based s r d c h) {k p : ℕ} (hp : d + k ≤ p)
    (hph : p < h) : (r.release k).slotBody (seqAt s p) = r.slotBody (seqAt s p) := by
  apply slotBody_congr
  rw [slot_release, if_neg]
  rintro ⟨j, hj, heq⟩
  rw [hb.delivered, seqAt_add] at heq
  have := hb.apart p (d + j) (by omega) hph (by omega) (by omega) heq
  omega

end Based

/-! ## Two rings at the same positions -/

/-- Two rings at the same positions, with the same bodies there. -/
structure Agree (s s' : UInt32) (r r' : RecvRing n) (d c h : ℕ) : Prop where
  here : Based s r d c h
  there : Based s' r' d c h
  slotLen : r.slotLen = r'.slotLen
  start_le : d ≤ h
  frontier_le : c ≤ h
  highest_le : h ≤ 2 ^ 31
  width_le : h ≤ d + n
  same : ∀ p, d ≤ p → p < h → r.slotBody (seqAt s p) = r'.slotBody (seqAt s' p)

section Agree

variable {s s' : UInt32} {r r' : RecvRing n} {d c h : ℕ}

theorem Agree.resetTo (r : RecvRing n) (s s' : UInt32) :
    Agree s s' (r.resetTo s) (r.resetTo s') 0 0 0 where
  here := .resetTo r s
  there := .resetTo r s'
  slotLen := rfl
  start_le := le_rfl
  frontier_le := le_rfl
  highest_le := Nat.zero_le _
  width_le := Nat.zero_le _
  same _ _ hp := absurd hp (Nat.not_lt_zero _)

theorem Agree.cumulative_eq_iff (hA : Agree s s' r r' d c h) {p : ℕ} (hp : p ≤ h) :
    (seqAt s p = r.cumulative ↔ p = c) ∧ (seqAt s' p = r'.cumulative ↔ p = c) := by
  have := hA.frontier_le
  have := hA.highest_le
  rw [hA.here.cumulative, hA.there.cumulative]
  exact ⟨seqAt_inj (by omega) (by omega), seqAt_inj (by omega) (by omega)⟩

theorem Agree.highest_eq_iff (hA : Agree s s' r r' d c h) {p : ℕ} (hp : p ≤ h) :
    (seqAt s p = r.highest ↔ p = h) ∧ (seqAt s' p = r'.highest ↔ p = h) := by
  have := hA.highest_le
  rw [hA.here.highest, hA.there.highest]
  exact ⟨seqAt_inj (by omega) (by omega), seqAt_inj (by omega) (by omega)⟩

/-! ### The frontier -/

theorem Agree.setCumulative (hA : Agree s s' r r' d c h) {c' : ℕ} (hc : c' ≤ h) :
    Agree s s' { r with cumulative := seqAt s c' } { r' with cumulative := seqAt s' c' } d c' h :=
  { hA with
    here := { hA.here with cumulative := rfl }
    there := { hA.there with cumulative := rfl }
    frontier_le := hc }

theorem Agree.advanceLoop : ∀ (k : ℕ) {r r' : RecvRing n} {c : ℕ}, Agree s s' r r' d c h → d ≤ c →
    ∃ c', d ≤ c' ∧ Agree s s' (advanceLoop k r) (advanceLoop k r') d c' h
  | 0, _, _, c, hA, hd => ⟨c, hd, hA⟩
  | k + 1, r, r', c, hA, hd => by
    have hle := hA.frontier_le
    have hend := hA.highest_eq_iff hle
    rw [← hA.here.cumulative, ← hA.there.cumulative] at hend
    unfold RecvRing.advanceLoop
    by_cases hc : c = h
    · rw [if_pos (hend.1.mpr hc), if_pos (hend.2.mpr hc)]
      exact ⟨c, hd, hA⟩
    · rw [if_neg (mt hend.1.mp hc), if_neg (mt hend.2.mp hc)]
      have hready : (r.slot (slotIndex n r.cumulative)).ready =
          (r'.slot (slotIndex n r'.cumulative)).ready := by
        rw [ready_eq, ready_eq, hA.here.cumulative, hA.there.cumulative,
          hA.same c hd (by omega)]
      rw [hready]
      split_ifs
      · rw [hA.here.cumulative, hA.there.cumulative, seqAt_succ, seqAt_succ]
        exact Agree.advanceLoop k (hA.setCumulative (by omega)) (by omega)
      · exact ⟨c, hd, hA⟩

theorem Agree.advance (hA : Agree s s' r r' d c h) (hd : d ≤ c) :
    ∃ c', d ≤ c' ∧ Agree s s' r.advance r'.advance d c' h := by
  have hfuel : r.highest - r.cumulative = r'.highest - r'.cumulative := by
    rw [hA.here.highest, hA.here.cumulative, hA.there.highest, hA.there.cumulative, seqAt_sub,
      seqAt_sub]
  unfold RecvRing.advance
  rw [hfuel]
  exact Agree.advanceLoop _ hA hd

/-! ### Storing -/

theorem Agree.place (hA : Agree s s' r r' d c h) {k : ℕ} (hk : d ≤ k) (hkn : k < d + n)
    (hfar : k + 1 < d + 2 ^ 31) (hmax : k < 2 ^ 31) (hw : Apart n s d (max h (k + 1)))
    (hw' : Apart n s' d (max h (k + 1))) (body : Str) :
    Agree s s' (r.place (seqAt s k) body) (r'.place (seqAt s' k) body) d c (max h (k + 1)) := by
  have hd := hA.start_le
  have hh := hA.highest_le
  refine ⟨hA.here.place hk hd hh hfar hw body, hA.there.place hk hd hh hfar hw' body, hA.slotLen,
    hd.trans (le_max_left _ _), hA.frontier_le.trans (le_max_left _ _), by omega,
    max_le hA.width_le (by omega), fun p hp hpw => ?_⟩
  rw [slotBody_place hw hk (by omega) hp hpw, slotBody_place hw' hk (by omega) hp hpw]
  split_ifs with hpk
  · rfl
  · rcases Nat.lt_or_ge p h with hph | hph
    · exact hA.same p hp hph
    · rw [hA.here.slotBody_eq_none hw (le_max_left _ _) hph hpw hd,
        hA.there.slotBody_eq_none hw' (le_max_left _ _) hph hpw hd]

/-- **Both rings answer a fragment alike**, if the window up to it stays apart in both. -/
theorem Agree.store (hA : Agree s s' r r' d c h) (hdc : d ≤ c) {k : ℕ} (hmax : k < 2 ^ 31)
    (body : Str) (hw : lt (seqAt s k) r.delivered = false →
      (distance r.delivered (seqAt s k)).toNat < n →
        k + 1 < d + 2 ^ 31 ∧ d ≤ k ∧ Apart n s d (max h (k + 1)) ∧ Apart n s' d (max h (k + 1))) :
    (r.store (seqAt s k) body).2 = (r'.store (seqAt s' k) body).2 ∧
      ∃ c' h', d ≤ c' ∧
        Agree s s' (r.store (seqAt s k) body).1 (r'.store (seqAt s' k) body).1 d c' h' := by
  have hstay : ∃ c' h', d ≤ c' ∧ Agree s s' r r' d c' h' := ⟨c, h, hdc, hA⟩
  have hlt : lt (seqAt s' k) r'.delivered = lt (seqAt s k) r.delivered := by
    rw [hA.here.delivered, hA.there.delivered]
    simp only [lt, gt, seqAt_sub]
  have hdist : distance r'.delivered (seqAt s' k) = distance r.delivered (seqAt s k) := by
    rw [hA.here.delivered, hA.there.delivered, distance, distance, seqAt_sub, seqAt_sub]
  unfold RecvRing.store
  rw [hlt, hdist, ← hA.slotLen]
  by_cases h1 : lt (seqAt s k) r.delivered = true
  · rw [if_pos h1, if_pos h1]
    exact ⟨rfl, hstay⟩
  rw [if_neg h1, if_neg h1]
  by_cases h2 : n ≤ (distance r.delivered (seqAt s k)).toNat
  · rw [if_pos h2, if_pos h2]
    exact ⟨rfl, hstay⟩
  obtain ⟨hfar, hk, hap, hap'⟩ := hw (by simpa using h1) (by omega)
  have hready : (r.slot (slotIndex n (seqAt s k))).ready =
      (r'.slot (slotIndex n (seqAt s' k))).ready := by
    rw [ready_eq, ready_eq]
    rcases Nat.lt_or_ge k h with hkh | hkh
    · rw [hA.same k hk hkh]
    · rw [hA.here.slotBody_eq_none hap (le_max_left _ _) hkh (by omega) hA.start_le,
        hA.there.slotBody_eq_none hap' (le_max_left _ _) hkh (by omega) hA.start_le]
  rw [← hready]
  split_ifs with h3 h4 h5
  · exact ⟨rfl, hstay⟩
  · exact ⟨rfl, hstay⟩
  · exact ⟨rfl, hstay⟩
  · have hkn : k < d + n := by
      have hd : (distance r.delivered (seqAt s k)).toNat = k - d := by
        rw [hA.here.delivered]
        exact toNat_seqAt_sub hk (by omega)
      omega
    obtain ⟨c', hc', hadv⟩ := (hA.place hk hkn hfar hmax hap hap' body).advance hdc
    exact ⟨rfl, c', _, hc', hadv⟩

/-! ### Taking a message -/

theorem Agree.collect (hA : Agree s s' r r' d c h) (stream : ℕ) :
    ∀ (fuel collected fragments : ℕ) {p : ℕ}, d ≤ p → p ≤ c →
      r.collect stream fuel collected fragments (seqAt s p) =
        r'.collect stream fuel collected fragments (seqAt s' p) := by
  intro fuel
  have hch := hA.frontier_le
  induction fuel with
  | zero =>
    intro collected fragments p _ hp
    have hend := hA.cumulative_eq_iff (hp.trans hch)
    unfold RecvRing.collect
    rw [if_congr hend.1 rfl rfl, if_congr hend.2 rfl rfl]
  | succ fuel ih =>
    intro collected fragments p hd hp
    have hend := hA.cumulative_eq_iff (hp.trans hch)
    unfold RecvRing.collect
    by_cases h1 : stream ≤ collected
    · rw [if_pos h1, if_pos h1]
    · rw [if_neg h1, if_neg h1]
      by_cases hc : p = c
      · rw [if_pos (hend.1.mpr hc), if_pos (hend.2.mpr hc)]
      · rw [if_neg (mt hend.1.mp hc), if_neg (mt hend.2.mp hc), hA.same p hd (by omega)]
        cases r'.slotBody (seqAt s' p) with
        | none => rfl
        | some body =>
          rw [seqAt_succ, seqAt_succ]
          exact ih _ _ (by omega) (by omega)

theorem collect_fragments_le (r : RecvRing n) (stream : ℕ) :
    ∀ (fuel collected fragments : ℕ) (x : UInt32) {a b : ℕ},
      r.collect stream fuel collected fragments x = some (a, b) → b ≤ fragments + fuel := by
  intro fuel
  induction fuel with
  | zero =>
    intro collected fragments x a b hcol
    unfold RecvRing.collect at hcol
    split_ifs at hcol
    cases hcol
    exact le_rfl
  | succ fuel ih =>
    intro collected fragments x a b hcol
    unfold RecvRing.collect at hcol
    split_ifs at hcol
    · cases hcol
      omega
    · cases hb : r.slotBody x with
      | none => simp [hb] at hcol
      | some body =>
        rw [hb] at hcol
        have := ih _ _ _ hcol
        omega

section

variable (hA : Agree s s' r r' d c h)

include hA

theorem Agree.copyOut (total : ℕ) :
    ∀ (fuel : ℕ) (written : Str) (skip : ℕ) {p : ℕ}, d ≤ p → p + fuel ≤ h →
      r.copyOut total fuel written skip (seqAt s p) =
        r'.copyOut total fuel written skip (seqAt s' p) := by
  intro fuel
  induction fuel with
  | zero =>
    intro written skip p _ _
    unfold RecvRing.copyOut
    split_ifs <;> rfl
  | succ fuel ih =>
    intro written skip p hd hp
    unfold RecvRing.copyOut
    rw [hA.same p hd (by omega)]
    split_ifs
    · rfl
    · cases r'.slotBody (seqAt s' p) with
      | none => rfl
      | some body =>
        rw [seqAt_succ, seqAt_succ]
        exact ih _ _ (by omega) (by omega)

theorem Agree.release {k : ℕ} (hk : d + k ≤ h) :
    Agree s s' (r.release k) (r'.release k) (d + k) c h where
  here := hA.here.release k
  there := hA.there.release k
  __ := hA
  start_le := hk
  width_le := hA.width_le.trans (by omega)
  same p hp hph := by
    rw [hA.here.slotBody_release hp hph, hA.there.slotBody_release hp hph]
    exact hA.same p (by omega) hph

theorem Agree.takeMessage (hdc : d ≤ c) (outLen : ℕ) :
    (r.takeMessage outLen).2 = (r'.takeMessage outLen).2 ∧
      ∃ d', d' ≤ c ∧ Agree s s' (r.takeMessage outLen).1 (r'.takeMessage outLen).1 d' c h := by
  have hstay : ∃ d', d' ≤ c ∧ Agree s s' r r' d' c h := ⟨d, hdc, hA⟩
  have hch := hA.frontier_le
  have hh := hA.highest_le
  have hend := hA.cumulative_eq_iff (hdc.trans hch)
  rw [← hA.here.delivered, ← hA.there.delivered] at hend
  have hheld : (r.cumulative - r.delivered).toNat = c - d := by
    rw [hA.here.cumulative, hA.here.delivered]
    exact toNat_seqAt_sub hdc (by omega)
  have hheld' : (r'.cumulative - r'.delivered).toNat = c - d := by
    rw [hA.there.cumulative, hA.there.delivered]
    exact toNat_seqAt_sub hdc (by omega)
  unfold RecvRing.takeMessage
  by_cases hempty : d = c
  · rw [if_pos (hend.1.mpr hempty), if_pos (hend.2.mpr hempty)]
    exact ⟨rfl, hstay⟩
  rw [if_neg (mt hend.1.mp hempty), if_neg (mt hend.2.mp hempty), hheld, hheld',
    hA.here.delivered, hA.there.delivered, hA.same d le_rfl (by omega)]
  cases r'.slotBody (seqAt s' d) with
  | none => exact ⟨rfl, hstay⟩
  | some first =>
    dsimp only
    cases parseLengthPrefix first with
    | error e => exact ⟨rfl, hstay⟩
    | ok total =>
      dsimp only
      rw [hA.collect _ _ _ _ le_rfl hdc, hA.copyOut _ _ _ _ le_rfl (by omega)]
      cases hcol : r'.collect (total + LENGTH_PREFIX_LEN) (c - d) 0 0 (seqAt s' d) with
      | none => exact ⟨rfl, hstay⟩
      | some pair =>
        obtain ⟨collected, fragments⟩ := pair
        dsimp only
        split_ifs with h1 h2
        · exact ⟨rfl, hstay⟩
        · exact ⟨rfl, hstay⟩
        · cases r'.copyOut total (c - d) [] LENGTH_PREFIX_LEN (seqAt s' d) with
          | error e => exact ⟨rfl, hstay⟩
          | ok bytes =>
            have hfr := collect_fragments_le r' _ _ _ _ _ hcol
            exact ⟨rfl, d + fragments, by omega, hA.release (by omega)⟩

/-! ### Escaping a stall -/

theorem Agree.escapeScan (resumable : Str → Bool) :
    ∀ (k : ℕ) {p : ℕ} (furthest best : Option ℕ), d ≤ p → p ≤ h →
      (∀ t ∈ furthest, d ≤ t ∧ t < h) → (∀ t ∈ best, d ≤ t ∧ t < h) →
      ∃ furthest' best' : Option ℕ,
        (∀ t ∈ furthest', d ≤ t ∧ t < h) ∧ (∀ t ∈ best', d ≤ t ∧ t < h) ∧
        r.escapeScan resumable k (seqAt s p) (furthest.map (seqAt s)) (best.map (seqAt s)) =
          (furthest'.map (seqAt s), best'.map (seqAt s)) ∧
        r'.escapeScan resumable k (seqAt s' p) (furthest.map (seqAt s')) (best.map (seqAt s')) =
          (furthest'.map (seqAt s'), best'.map (seqAt s')) := by
  intro k
  induction k with
  | zero =>
    intro p furthest best _ _ hf hb
    exact ⟨furthest, best, hf, hb, rfl, rfl⟩
  | succ k ih =>
    intro p furthest best hd hp hf hb
    have hend := hA.highest_eq_iff hp
    unfold RecvRing.escapeScan
    by_cases hph : p = h
    · rw [if_pos (hend.1.mpr hph), if_pos (hend.2.mpr hph)]
      exact ⟨furthest, best, hf, hb, rfl, rfl⟩
    · rw [if_neg (mt hend.1.mp hph), if_neg (mt hend.2.mp hph), hA.same p hd (by omega),
        seqAt_succ, seqAt_succ]
      have hmem : ∀ t ∈ some p, d ≤ t ∧ t < h := by
        intro t ht
        cases ht
        exact ⟨hd, by omega⟩
      cases r'.slotBody (seqAt s' p) with
      | none => exact ih furthest best (by omega) (by omega) hf hb
      | some body =>
        dsimp only
        cases resumable body with
        | true => exact ih (some p) (some p) (by omega) (by omega) hmem hmem
        | false => exact ih (some p) best (by omega) (by omega) hmem hb

theorem Agree.escapeStall (hdc : d ≤ c) (resumable : Str → Bool) :
    ((r.escapeStall resumable).2.map (· - s) = (r'.escapeStall resumable).2.map (· - s')) ∧
      ∃ d' c', d' ≤ c' ∧
        Agree s s' (r.escapeStall resumable).1 (r'.escapeStall resumable).1 d' c' h := by
  have hstay : ∃ d' c', d' ≤ c' ∧ Agree s s' r r' d' c' h := ⟨d, c, hdc, hA⟩
  have hh := hA.highest_le
  have hend := hA.highest_eq_iff hA.frontier_le
  rw [← hA.here.cumulative, ← hA.there.cumulative] at hend
  have hgap : r.hasGap = r'.hasGap := by
    exact decide_eq_decide.mpr (not_congr (hend.1.trans hend.2.symm))
  have hfuel : r.highest - r.delivered = r'.highest - r'.delivered := by
    rw [hA.here.highest, hA.here.delivered, hA.there.highest, hA.there.delivered, seqAt_sub,
      seqAt_sub]
  unfold RecvRing.escapeStall
  rw [hgap]
  split_ifs with hg
  · exact ⟨rfl, hstay⟩
  obtain ⟨furthest, best, hf, hb, hscan, hscan'⟩ := hA.escapeScan resumable
    (r'.highest - r'.delivered).toNat none none le_rfl hA.start_le (by simp) (by simp)
  rw [Option.map_none, ← hA.here.delivered, ← hfuel] at hscan
  rw [Option.map_none, ← hA.there.delivered] at hscan'
  rw [hscan, hscan']
  dsimp only
  rw [← Option.map_or, ← Option.map_or]
  cases htarget : best.or furthest with
  | none => exact ⟨rfl, hstay⟩
  | some t =>
    have ht : d ≤ t ∧ t < h := by
      cases best with
      | none => exact hf t htarget
      | some b => exact hb t htarget
    dsimp only [Option.map_some]
    have hle : le (seqAt s t) r.delivered = le (seqAt s' t) r'.delivered := by
      rw [hA.here.delivered, hA.there.delivered]
      simp only [le, ge, seqAt_sub]
    rw [hle]
    by_cases hback : le (seqAt s' t) r'.delivered = true
    · rw [if_pos hback, if_pos hback]
      exact ⟨rfl, hstay⟩
    · have hskip : (seqAt s t - r.delivered).toNat = t - d := by
        rw [hA.here.delivered]
        exact toNat_seqAt_sub ht.1 (by omega)
      have hskip' : (seqAt s' t - r'.delivered).toNat = t - d := by
        rw [hA.there.delivered]
        exact toNat_seqAt_sub ht.1 (by omega)
      rw [if_neg hback, if_neg hback, hskip, hskip']
      have hrel := hA.release (k := t - d) (by omega)
      rw [show d + (t - d) = t by omega] at hrel
      -- the frontier is at the target at least
      have hlt : lt (r.release (t - d)).cumulative (seqAt s t) = true ↔ c < t := by
        rw [hrel.here.cumulative]
        exact gt_seqAt_iff (by omega) (by have := hA.frontier_le; omega)
      have hlt' : lt (r'.release (t - d)).cumulative (seqAt s' t) = true ↔ c < t := by
        rw [hrel.there.cumulative]
        exact gt_seqAt_iff (by omega) (by have := hA.frontier_le; omega)
      have hans : (some (seqAt s t)).map (· - s) = (some (seqAt s' t)).map (· - s') := by
        rw [Option.map_some, Option.map_some, seqAt_sub_start, seqAt_sub_start]
      by_cases hct : c < t
      · rw [if_pos (hlt.mpr hct), if_pos (hlt'.mpr hct)]
        obtain ⟨c', hc', hadv⟩ := (hrel.setCumulative ht.2.le).advance le_rfl
        exact ⟨hans, t, c', hc', hadv⟩
      · rw [if_neg (mt hlt.mp hct), if_neg (mt hlt'.mp hct)]
        obtain ⟨c', hc', hadv⟩ := hrel.advance (by omega)
        exact ⟨hans, t, c', hc', hadv⟩

end

end Agree

/-! ## Runs -/

/-- What is done to a ring. A fragment is given by its position. -/
inductive Op
  | store (k : Fin (2 ^ 31)) (body : Str)
  | takeMessage (outLen : ℕ)
  | escapeStall (resumable : Str → Bool)

/-- What it answers. Where a stall was escaped to is told from the start. -/
inductive Outcome
  | stored (o : Stored)
  | message (m : Option (Except Error Str))
  | escaped (target : Option UInt32)
  deriving DecidableEq

/-- An operation on a channel that starts at `s`. -/
def apply (s : UInt32) (r : RecvRing n) : Op → RecvRing n × Outcome
  | .store k body => ((r.store (seqAt s k) body).1, .stored (r.store (seqAt s k) body).2)
  | .takeMessage outLen => ((r.takeMessage outLen).1, .message (r.takeMessage outLen).2)
  | .escapeStall resumable =>
    ((r.escapeStall resumable).1, .escaped ((r.escapeStall resumable).2.map (· - s)))

/-- A list of operations, and what each answers. -/
def run (s : UInt32) : RecvRing n → List Op → RecvRing n × List Outcome
  | r, [] => (r, [])
  | r, op :: ops =>
    ((run s (r.apply s op).1 ops).1, (r.apply s op).2 :: (run s (r.apply s op).1 ops).2)

/-- **The condition.** A fragment in the window is less than `2 ^ 31 - 1` past the reader, and no
two sequence numbers from the reader up to it, or up to the highest, have the same slot. -/
def KeepsApart (s : UInt32) (r : RecvRing n) : Op → Prop
  | .store k _ =>
    let ahead := (Seq.distance r.delivered (seqAt s k)).toNat
    let width := max r.windowUsed.toNat (ahead + 1)
    Seq.lt (seqAt s k) r.delivered = false → ahead < n →
      ahead + 1 < 2 ^ 31 ∧ ∀ i < width, ∀ j < width,
        slotIndex n (r.delivered + UInt32.ofNat i) = slotIndex n (r.delivered + UInt32.ofNat j) →
          i = j
  | _ => True

instance (s : UInt32) (r : RecvRing n) : (op : Op) → Decidable (r.KeepsApart s op)
  | .store _ _ => inferInstanceAs (Decidable (_ → _ → _))
  | .takeMessage _ | .escapeStall _ => .isTrue trivial

/-- Every operation of a run meets the condition. -/
def RunsApart (s : UInt32) : RecvRing n → List Op → Prop
  | _, [] => True
  | r, op :: ops => r.KeepsApart s op ∧ RunsApart s (r.apply s op).1 ops

instance decidableRunsApart (s : UInt32) :
    (r : RecvRing n) → (ops : List Op) → Decidable (r.RunsApart s ops)
  | _, [] => .isTrue trivial
  | r, op :: ops =>
    have := decidableRunsApart s (r.apply s op).1 ops
    inferInstanceAs (Decidable (_ ∧ _))

section Runs

variable {s s' : UInt32} {r r' : RecvRing n}

/-- Two rings are at the same positions. -/
def Abreast (s s' : UInt32) (r r' : RecvRing n) : Prop :=
  ∃ d c h, d ≤ c ∧ Agree s s' r r' d c h

/-- What `store` has to know of a window: the position is ahead, near, and the slots stay apart. -/
def Reach (s s' : UInt32) (r r' : RecvRing n) (op : Op) : Prop :=
  ∀ d c h, Agree s s' r r' d c h → ∀ k body, op = .store k body →
    Seq.lt (seqAt s k) r.delivered = false → (Seq.distance r.delivered (seqAt s k)).toNat < n →
      k + 1 < d + 2 ^ 31 ∧ d ≤ k ∧ Apart n s d (max h (k + 1)) ∧ Apart n s' d (max h (k + 1))

theorem Abreast.apply (h : Abreast s s' r r') {op : Op} (hop : Reach s s' r r' op) :
    (r.apply s op).2 = (r'.apply s' op).2 ∧ Abreast s s' (r.apply s op).1 (r'.apply s' op).1 := by
  obtain ⟨d, c, h, hdc, hA⟩ := h
  cases op with
  | store k body =>
    obtain ⟨hout, c', h', hc', hA'⟩ :=
      hA.store hdc k.isLt body fun hlt hn => hop d c h hA k body rfl hlt hn
    exact ⟨congrArg Outcome.stored hout, d, c', h', hc', hA'⟩
  | takeMessage outLen =>
    obtain ⟨hout, d', hd', hA'⟩ := hA.takeMessage hdc outLen
    exact ⟨congrArg Outcome.message hout, d', c, h, hd', hA'⟩
  | escapeStall resumable =>
    obtain ⟨hout, d', c', hd', hA'⟩ := hA.escapeStall hdc resumable
    exact ⟨congrArg Outcome.escaped hout, d', c', h, hd', hA'⟩

theorem Agree.ahead {d c h k : ℕ} (hA : Agree s s' r r' d c h) (hk : k < 2 ^ 31)
    (hfar : (distance r.delivered (seqAt s k)).toNat + 1 < 2 ^ 31) :
    d ≤ k ∧ (distance r.delivered (seqAt s k)).toNat = k - d := by
  have hd := hA.start_le
  have hh := hA.highest_le
  rw [hA.here.delivered, distance] at hfar ⊢
  rcases Nat.lt_or_ge k d with hlt | hge
  · rw [seqAt_sub, Serial.toNat_sub_ofNat_of_lt hlt (by omega)] at hfar
    omega
  · exact ⟨hge, toNat_seqAt_sub hge (by omega)⟩

theorem KeepsApart.reach {op : Op} (hop : r.KeepsApart s op) : Reach s 0 r r' op := by
  rintro d c h hA k body rfl hlt hn
  obtain ⟨hfar, hapart⟩ := hop hlt hn
  obtain ⟨hdk, hahead⟩ := hA.ahead k.isLt hfar
  have hh := hA.highest_le
  have hused : r.windowUsed.toNat = h - d := by
    rw [windowUsed, hA.here.highest, hA.here.delivered]
    exact toNat_seqAt_sub hA.start_le (by omega)
  rw [hahead] at hfar hn hapart
  rw [hused, hA.here.delivered] at hapart
  refine ⟨by omega, hdk, ?_, ?_⟩
  · intro p q h1 h2 h3 h4 heq
    have := hapart (p - d) (by omega) (q - d) (by omega) (by
      rw [seqAt_add, seqAt_add, Nat.add_sub_cancel' h1, Nat.add_sub_cancel' h3]
      exact heq)
    omega
  · exact apart_zero (max_le hA.width_le (by omega)) (by omega)

theorem RunsApart.run : ∀ (ops : List Op) {r r' : RecvRing n}, Abreast s 0 r r' →
    r.RunsApart s ops → (r.run s ops).2 = (r'.run 0 ops).2 ∧ Abreast s 0 (r.run s ops).1 (r'.run 0 ops).1
  | [], _, _, h, _ => ⟨rfl, h⟩
  | op :: ops, r, r', h, hops => by
    obtain ⟨hout, hnext⟩ := h.apply hops.1.reach
    obtain ⟨houts, hend⟩ := RunsApart.run ops hnext hops.2
    exact ⟨congrArg₂ _ hout houts, hend⟩

theorem Abreast.cursors (h : Abreast s 0 r r') :
    r.delivered - s = r'.delivered ∧ r.cumulative - s = r'.cumulative ∧
      r.highest - s = r'.highest := by
  obtain ⟨d, c, h, -, hA⟩ := h
  rw [hA.here.delivered, hA.here.cumulative, hA.here.highest, hA.there.delivered,
    hA.there.cumulative, hA.there.highest]
  simp [seqAt_sub_start, seqAt_zero_left]

end Runs

/-- **A run whose windows stay apart is answered as the same run from zero**, and its cursors are as
far from its start. -/
theorem wrap_independent (ring : RecvRing n) (s : UInt32) (ops : List Op)
    (hops : (ring.resetTo s).RunsApart s ops) :
    ((ring.resetTo s).run s ops).2 = ((ring.resetTo 0).run 0 ops).2 ∧
      ((ring.resetTo s).run s ops).1.delivered - s = ((ring.resetTo 0).run 0 ops).1.delivered ∧
      ((ring.resetTo s).run s ops).1.cumulative - s = ((ring.resetTo 0).run 0 ops).1.cumulative ∧
      ((ring.resetTo s).run s ops).1.highest - s = ((ring.resetTo 0).run 0 ops).1.highest := by
  obtain ⟨hout, hend⟩ := RunsApart.run ops ⟨0, 0, 0, le_rfl, Agree.resetTo ring s 0⟩ hops
  exact ⟨hout, hend.cursors⟩

def emptyMessage : Str := [0, 0, 0, 0]

theorem wrap_independent_three :
    let ops : List Op := [.store 0 emptyMessage, .takeMessage 16, .store 1 emptyMessage,
      .takeMessage 16]
    ((fresh 64 : RecvRing 3).resetTo SEQ_MAX).RunsApart SEQ_MAX ops ∧
      (((fresh 64 : RecvRing 3).resetTo SEQ_MAX).run SEQ_MAX ops).2 =
        (((fresh 64 : RecvRing 3).resetTo 0).run 0 ops).2 := by
  intro ops
  have hops : ((fresh 64 : RecvRing 3).resetTo SEQ_MAX).RunsApart SEQ_MAX ops := by decide +kernel
  exact ⟨hops, (wrap_independent (fresh 64) SEQ_MAX ops hops).1⟩

/-- **In a ring of the protocol's size, two fragments of one window share a slot at the wrap**: from
zero both are accepted, from the last sequence number the second is taken for a duplicate. -/
theorem wrap_differs :
    let ops : List Op := [.store 0 emptyMessage, .store 3296 emptyMessage]
    (((fresh 64 : RecvRing RING_SLOTS).resetTo 0).run 0 ops).2 =
        [.stored .accepted, .stored .accepted] ∧
      (((fresh 64 : RecvRing RING_SLOTS).resetTo SEQ_MAX).run SEQ_MAX ops).2 =
        [.stored .accepted, .stored .duplicate] := by
  decide +kernel

end RecvRing

end OpenStream.Lowlat
