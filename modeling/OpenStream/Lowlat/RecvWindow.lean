import OpenStream.Lowlat.RecvRing

/-!
# What the receive ring holds

Positions are sequence numbers counted without wrapping. `Holds P r` says that `P` is true of every
ready slot of the window at its position, and was true of every position the frontier has passed.

* **`RecvRing.Holds.store`**
* **`RecvRing.Reads.takeMessage`**
-/

namespace OpenStream.Lowlat

open Bytes List Serial
open UInt32 (ofNat sub_eq_add_neg toNat_inj)

/-- The largest multiple of `n` within the sequence space. From there on the slot of a position is not
the slot of its wrapped sequence number's neighbours: numbers restart at zero, slots do not. -/
def wrapLimit (n : ℕ) : ℕ := n * (2 ^ 32 / n)

theorem wrapLimit_le (n : ℕ) : wrapLimit n ≤ 2 ^ 32 := Nat.mul_div_le (2 ^ 32) n

namespace RecvRing

variable {n : ℕ} [NeZero n]

/-! ## What the ring holds -/

section Holds

variable {P Q : ℕ → Str → Prop} {r : RecvRing n}

def slotAt (r : RecvRing n) (p : ℕ) : SlotMeta := r.slot (Fin.ofNat n p)

/-- Every slot of the window that is ready satisfies `P` at its position, and so did every position
the frontier has passed. Positions from `wrapLimit n` on are left out: a sequence number from before
the wrap shares their slots. -/
structure Holds (P : ℕ → Str → Prop) (r : RecvRing n) : Prop where
  delivered_le : r.delivered.toNat ≤ r.cumulative.toNat
  frontier_le : r.cumulative.toNat - r.delivered.toNat ≤ r.windowUsed.toNat
  used_le : r.windowUsed.toNat ≤ n
  ready : ∀ p, r.delivered.toNat ≤ p → p < r.cumulative.toNat → (r.slotAt p).ready = true
  body : ∀ p, r.delivered.toNat ≤ p → p < r.delivered.toNat + n → p < wrapLimit n →
    (r.slotAt p).ready = true → P p (r.slotAt p).body
  below : ∀ p < r.cumulative.toNat, ∃ b, P p b

theorem Holds.fresh (slotLen : ℕ) : Holds P (RecvRing.fresh (n := n) slotLen) where
  delivered_le := le_rfl
  frontier_le := Nat.zero_le _
  used_le := by simp [RecvRing.fresh, windowUsed]
  ready p _ h := absurd h (Nat.not_lt_zero p)
  body _ _ _ _ h := absurd h (by simp [RecvRing.fresh, slotAt])
  below p h := absurd h (Nat.not_lt_zero p)

theorem Holds.mono (h : Holds P r) (hPQ : ∀ p b, P p b → Q p b) : Holds Q r :=
  { h with
    body := fun p h1 h2 h3 h4 => hPQ p _ (h.body p h1 h2 h3 h4)
    below := fun p hp => (h.below p hp).imp (hPQ p) }

/-- `P` speaks only of positions that stay clear of the wrap. -/
def Below (n : ℕ) (P : ℕ → Str → Prop) : Prop := ∀ p b, P p b → p + 1 < wrapLimit n

theorem Holds.cumulative_lt (h : Holds P r) (hP : Below n P) (h0 : 0 < wrapLimit n) :
    r.cumulative.toNat < wrapLimit n := by
  rcases Nat.eq_zero_or_pos r.cumulative.toNat with hz | hpos
  · omega
  · obtain ⟨b, hb⟩ := h.below (r.cumulative.toNat - 1) (by omega)
    have := hP _ _ hb
    omega

theorem Holds.cumulative_le (h : Holds P r) : r.cumulative.toNat ≤ r.delivered.toNat + n := by
  have := h.frontier_le
  have := h.used_le
  omega

theorem Holds.slotBody (h : Holds P r) (hP : Below n P) (h0 : 0 < wrapLimit n) {s : UInt32}
    (h1 : r.delivered.toNat ≤ s.toNat) (h2 : s.toNat < r.cumulative.toNat) :
    ∃ b, r.slotBody s = some b ∧ P s.toNat b := by
  have hr : (r.slot (slotIndex n s)).ready = true := h.ready _ h1 h2
  have := h.cumulative_le
  have := h.cumulative_lt hP h0
  refine ⟨(r.slotAt s.toNat).body, ?_, h.body _ h1 (by omega) (by omega) hr⟩
  rw [RecvRing.slotBody, if_pos hr]
  rfl

theorem Holds.cumulative_ne (h : Holds P r) (hne : r.cumulative ≠ r.highest) :
    r.cumulative.toNat < r.delivered.toNat + r.windowUsed.toNat := by
  have hf := h.frontier_le
  have hd := h.delivered_le
  rcases Nat.lt_or_ge r.cumulative.toNat (r.delivered.toNat + r.windowUsed.toNat) with hlt | hge
  · exact hlt
  · refine absurd ?_ hne
    apply toNat_inj.mp
    have hc := r.cumulative.toNat_lt
    rw [← UInt32.sub_add_cancel r.highest r.delivered, UInt32.toNat_add, ← windowUsed]
    omega

/-! ## The frontier -/

theorem Holds.stepFrontier (h : Holds P r) (hP : Below n P) (h0 : 0 < wrapLimit n)
    (hne : r.cumulative ≠ r.highest) (hr : (r.slot (slotIndex n r.cumulative)).ready = true) :
    Holds P { r with cumulative := r.cumulative + 1 } := by
  have hlt := h.cumulative_ne hne
  have hlim := h.cumulative_lt hP h0
  have hu := h.used_le
  have hd := h.delivered_le
  have hb := h.body _ hd (by omega) hlim hr
  have hs : (r.cumulative + 1).toNat = r.cumulative.toNat + 1 :=
    toNat_succ (lt_of_lt_of_le (hP _ _ hb) (wrapLimit_le n))
  refine ⟨?_, ?_, hu, ?_, h.body, ?_⟩
  · show r.delivered.toNat ≤ (r.cumulative + 1).toNat
    omega
  · show (r.cumulative + 1).toNat - r.delivered.toNat ≤ r.windowUsed.toNat
    omega
  · intro p h1 h2
    change p < (r.cumulative + 1).toNat at h2
    rcases Nat.lt_or_ge p r.cumulative.toNat with hp | hp
    · exact h.ready p h1 hp
    · obtain rfl : p = r.cumulative.toNat := by omega
      exact hr
  · intro p hp
    change p < (r.cumulative + 1).toNat at hp
    rcases Nat.lt_or_ge p r.cumulative.toNat with hp' | hp'
    · exact h.below p hp'
    · obtain rfl : p = r.cumulative.toNat := by omega
      exact ⟨_, hb⟩

theorem Holds.advanceLoop (hP : Below n P) (h0 : 0 < wrapLimit n) :
    ∀ (k : ℕ) {r : RecvRing n}, Holds P r → Holds P (RecvRing.advanceLoop k r)
  | 0, _, h => h
  | k + 1, r, h => by
    unfold RecvRing.advanceLoop
    split_ifs with h1 h2
    · exact h
    · exact Holds.advanceLoop hP h0 k (h.stepFrontier hP h0 h1 h2)
    · exact h

/-! ## Storing -/

theorem distance_cases {d s : UInt32} (hlt : Seq.lt s d = false) :
    (d.toNat ≤ s.toNat ∧ (Seq.distance d s).toNat = s.toNat - d.toNat) ∨
      (s.toNat + 2 ^ 31 ≤ d.toNat ∧ (Seq.distance d s).toNat + d.toNat = s.toNat + 2 ^ 32) := by
  rw [Seq.lt, Seq.gt_eq, sgt, decide_eq_false_iff_not] at hlt
  rw [toNat_sub] at hlt
  rw [Seq.distance, toNat_sub]
  have hd := d.toNat_lt
  have hs := s.toNat_lt
  split_ifs at hlt ⊢ <;> omega

theorem slotAt_place (s : UInt32) (body : Str) (p : ℕ) :
    (r.place s body).slotAt p = if Fin.ofNat n p = Fin.ofNat n s.toNat then ⟨body, true⟩
      else r.slotAt p := by
  simp [slotAt, place, slotIndex, Function.update_apply]

theorem Holds.place (h : Holds P r) (hP : Below n P) {s : UInt32} {body : Str}
    (hs : P s.toNat body) (hlt : Seq.lt s r.delivered = false)
    (hdist : (Seq.distance r.delivered s).toNat < n) (hfree : (r.slotAt s.toNat).ready = false) :
    Holds P (r.place s body) := by
  have hslim := hP _ _ hs
  have hlim := wrapLimit_le n
  have hC := h.cumulative_lt hP (by omega)
  have hcases := distance_cases hlt
  -- the placed position is past the frontier, seen from `delivered`
  have hpast : r.cumulative.toNat - r.delivered.toNat ≤ (Seq.distance r.delivered s).toNat := by
    rcases hcases with ⟨h1, h2⟩ | ⟨h1, h2⟩
    · by_contra hc
      have := h.ready s.toNat h1 (by omega)
      rw [hfree] at this
      cases this
    · omega
  have hnext : (s + 1 - r.delivered).toNat = (Seq.distance r.delivered s).toNat + 1 := by
    have : s + 1 - r.delivered = Seq.distance r.delivered s + 1 := by
      rw [Seq.distance, sub_eq_add_neg, sub_eq_add_neg]
      ac_rfl
    rw [this]
    exact toNat_succ (by omega)
  have hused : (r.place s body).windowUsed = r.windowUsed ∨
      (r.place s body).windowUsed = s + 1 - r.delivered := by
    simp only [RecvRing.windowUsed, RecvRing.place]
    split_ifs
    · exact .inr rfl
    · exact .inl rfl
  -- no position of the window shares the slot of one that looks ahead from behind
  have hsame : ∀ p, r.delivered.toNat ≤ p → p < r.delivered.toNat + n → p < wrapLimit n →
      Fin.ofNat n p = Fin.ofNat n s.toNat → p = s.toNat := by
    intro p h1 h2 h3 heq
    have hmod : p % n = s.toNat % n := congrArg Fin.val heq
    rcases hcases with ⟨h4, h5⟩ | ⟨h4, h5⟩
    · exact slot_inj hmod (by omega) (by omega)
    · have hw : p % n = (wrapLimit n + s.toNat) % n := by
        rw [hmod, wrapLimit, Nat.mul_add_mod]
      have := slot_inj hw (by omega) (by omega)
      omega
  refine ⟨h.delivered_le, ?_, ?_, ?_, ?_, h.below⟩
  · show r.cumulative.toNat - r.delivered.toNat ≤ _
    have := h.frontier_le
    rcases hused with hu | hu <;> rw [hu] <;> omega
  · have := h.used_le
    rcases hused with hu | hu <;> rw [hu] <;> omega
  · intro p h1 h2
    rw [slotAt_place]
    split_ifs
    · rfl
    · exact h.ready p h1 h2
  · intro p h1 h2 h3
    rw [slotAt_place]
    split_ifs with heq
    · intro _
      rw [hsame p h1 h2 h3 heq]
      exact hs
    · exact h.body p h1 h2 h3

theorem store_cases (r : RecvRing n) (s : UInt32) (body : Str) :
    ((r.store s body).1 = r ∧ (r.store s body).2 ≠ .accepted) ∨
      (r.store s body = ((r.place s body).advance, .accepted) ∧ Seq.lt s r.delivered = false ∧
        (Seq.distance r.delivered s).toNat < n ∧ (r.slotAt s.toNat).ready = false) := by
  unfold store
  split_ifs with h1 h2 h3 h4 h5
  · exact .inl ⟨rfl, by simp⟩
  · exact .inl ⟨rfl, by simp⟩
  · exact .inl ⟨rfl, by simp⟩
  · exact .inl ⟨rfl, by simp⟩
  · exact .inl ⟨rfl, by simp⟩
  · exact .inr ⟨rfl, by simpa using h1, by omega, by simpa [slotAt, slotIndex] using h5⟩

theorem advanceLoop_delivered : ∀ (k : ℕ) (r : RecvRing n),
    (advanceLoop k r).delivered = r.delivered ∧ (advanceLoop k r).slotLen = r.slotLen
  | 0, _ => ⟨rfl, rfl⟩
  | k + 1, r => by
    unfold advanceLoop
    split_ifs
    · exact ⟨rfl, rfl⟩
    · exact advanceLoop_delivered k { r with cumulative := r.cumulative + 1 }
    · exact ⟨rfl, rfl⟩

theorem store_delivered (r : RecvRing n) (s : UInt32) (body : Str) :
    (r.store s body).1.delivered = r.delivered := by
  rcases store_cases r s body with ⟨h, -⟩ | ⟨h, -⟩
  · rw [h]
  · rw [h]
    exact (advanceLoop_delivered _ _).1

theorem store_slotLen (r : RecvRing n) (s : UInt32) (body : Str) :
    (r.store s body).1.slotLen = r.slotLen := by
  rcases store_cases r s body with ⟨h, -⟩ | ⟨h, -⟩
  · rw [h]
  · rw [h]
    exact (advanceLoop_delivered _ _).2

/-- **`store` keeps what the ring holds.** -/
theorem Holds.store (h : Holds P r) (hP : Below n P) {s : UInt32} {body : Str}
    (hs : P s.toNat body) : Holds P (r.store s body).1 := by
  have h0 : 0 < wrapLimit n := by
    have := hP _ _ hs
    omega
  rcases store_cases r s body with ⟨h1, -⟩ | ⟨h1, h2, h3, h4⟩
  · rw [h1]
    exact h
  · rw [h1]
    exact Holds.advanceLoop hP h0 _ (h.place hP hs h2 h3 h4)

/-! ## Taking a message -/

theorem slot_release (r : RecvRing n) (k : ℕ) (i : Fin n) :
    (r.release k).slot i =
      if ∃ j < k, i = slotIndex n (r.delivered + ofNat j) then {} else r.slot i := by
  change ((range k).foldl (fun slot step => Function.update slot
    (slotIndex n (r.delivered + ofNat step)) {}) r.slot) i = _
  induction k with
  | zero => simp
  | succ k ih =>
    rw [range_succ, foldl_append, foldl_cons, foldl_nil,
      Function.update_apply, ih]
    by_cases hi : i = slotIndex n (r.delivered + ofNat k)
    · rw [if_pos hi, if_pos ⟨k, Nat.lt_succ_self k, hi⟩]
    · rw [if_neg hi]
      refine if_congr ⟨?_, ?_⟩ rfl rfl
      · rintro ⟨j, hj, he⟩
        exact ⟨j, hj.trans (Nat.lt_succ_self k), he⟩
      · rintro ⟨j, hj, he⟩
        refine ⟨j, lt_of_le_of_ne (Nat.le_of_lt_succ hj) ?_, he⟩
        rintro rfl
        exact hi he

theorem slotAt_release {k : ℕ} (hk : r.delivered.toNat + k < 2 ^ 32) (p : ℕ) :
    (r.release k).slotAt p = if ∃ i < k, Fin.ofNat n p = Fin.ofNat n (r.delivered.toNat + i) then {}
      else r.slotAt p := by
  rw [slotAt, slot_release]
  refine if_congr (exists_congr fun i => and_congr_right fun hi => ?_) rfl rfl
  rw [slotIndex, toNat_add_ofNat (by omega)]

theorem slotAt_release_window {k p : ℕ} (hk : r.delivered.toNat + k < 2 ^ 32)
    (h1 : r.delivered.toNat + k ≤ p) (h2 : p < r.delivered.toNat + k + n) :
    (r.release k).slotAt p = if p < r.delivered.toNat + n then r.slotAt p else {} := by
  rw [slotAt_release hk]
  split_ifs with h3 h4 h4
  · obtain ⟨i, hi, he⟩ := h3
    have := slot_inj (n := n) (congrArg Fin.val he) (by omega) (by omega)
    omega
  · rfl
  · rfl
  · refine absurd ⟨p - n - r.delivered.toNat, by omega, ?_⟩ h3
    apply Fin.ext
    have : r.delivered.toNat + (p - n - r.delivered.toNat) = p - n := by omega
    rw [this]
    exact Nat.mod_eq_sub_mod (by omega)

theorem Holds.release (h : Holds P r) {k : ℕ}
    (hk : r.delivered.toNat + k ≤ r.cumulative.toNat) : Holds P (r.release k) := by
  have hC := r.cumulative.toNat_lt
  have hCn := h.cumulative_le
  have hf := h.frontier_le
  have hu := h.used_le
  have hd : (r.release k).delivered.toNat = r.delivered.toNat + k :=
    toNat_add_ofNat (by omega)
  have hused : (r.release k).windowUsed.toNat = r.windowUsed.toNat - k := by
    have he : (r.release k).windowUsed = r.windowUsed - ofNat k := by
      simp only [RecvRing.windowUsed, RecvRing.release, sub_eq_add_neg, UInt32.neg_add]
      ac_rfl
    rw [he, toNat_sub, toNat_ofNat_lt (by omega), if_pos (by omega)]
  have hrel (p : ℕ) (h1 : r.delivered.toNat + k ≤ p) (h2 : p < r.delivered.toNat + k + n) :=
    slotAt_release_window (r := r) (by omega) h1 h2
  refine ⟨?_, ?_, ?_, ?_, ?_, h.below⟩
  · rw [hd]
    exact hk
  · rw [hd, hused]
    show r.cumulative.toNat - (r.delivered.toNat + k) ≤ _
    omega
  · omega
  · intro p h1 h2
    rw [hd] at h1
    change p < r.cumulative.toNat at h2
    rw [hrel p h1 (by omega), if_pos (by omega)]
    exact h.ready p (by omega) h2
  · intro p h1 h2 h3
    rw [hd] at h1 h2
    rw [hrel p h1 h2]
    split_ifs with h4
    · exact h.body p (by omega) h4 h3
    · intro hr
      cases hr

section Take

variable {log : List Str}

/-- The reader finds the fragments of the log from `delivered` up to the frontier. -/
def Reads (log : List Str) (r : RecvRing n) : Prop :=
  ∀ s : UInt32, r.delivered.toNat ≤ s.toNat → s.toNat < r.cumulative.toNat →
    ∃ b, r.slotBody s = some b ∧ log[s.toNat]? = some b

theorem Reads.head (h : Reads log r) {s : UInt32} (h1 : r.delivered.toNat ≤ s.toNat)
    (h2 : s.toNat < r.cumulative.toNat) {f : Str} {fs : List Str}
    (hlog : log.drop s.toNat = f :: fs) :
    r.slotBody s = some f ∧ (s + 1).toNat = s.toNat + 1 ∧ log.drop (s + 1).toNat = fs := by
  obtain ⟨b, hb, hl⟩ := h s h1 h2
  have hC := r.cumulative.toNat_lt
  have hs : (s + 1).toNat = s.toNat + 1 := toNat_succ (by omega)
  have hf : log[s.toNat]? = some f := by
    have := congrArg (·[0]?) hlog
    simpa [getElem?_drop] using this
  rw [hf] at hl
  cases hl
  refine ⟨hb, hs, ?_⟩
  rw [hs, ← drop_drop, hlog, drop_one, tail_cons]

theorem Reads.collect (h : Reads log r) : ∀ (fs rest : List Str) (collected fragments : ℕ)
    (s : UInt32), (∀ f ∈ fs, f ≠ []) → r.delivered.toNat ≤ s.toNat →
    s.toNat ≤ r.cumulative.toNat → log.drop s.toNat = fs ++ rest →
    r.collect (collected + fs.flatten.length) (r.cumulative.toNat - s.toNat) collected fragments s =
        none ∨
      (r.collect (collected + fs.flatten.length) (r.cumulative.toNat - s.toNat) collected fragments
          s = some (collected + fs.flatten.length, fragments + fs.length) ∧
        s.toNat + fs.length ≤ r.cumulative.toNat)
  | [], rest, collected, fragments, s, _, _, h2, _ => by
    right
    unfold RecvRing.collect
    rw [if_pos (by simp)]
    exact ⟨rfl, h2⟩
  | f :: fs, rest, collected, fragments, s, hne, h1, h2, hlog => by
    have hpos : 0 < f.length := length_pos_iff.mpr (hne f mem_cons_self)
    have hflat : collected + (f :: fs).flatten.length =
        collected + f.length + fs.flatten.length := by
      rw [flatten_cons, length_append]
      omega
    unfold RecvRing.collect
    rw [if_neg (by rw [hflat]; omega)]
    by_cases hc : s = r.cumulative
    · rw [if_pos hc]
      exact .inl rfl
    · have hlt : s.toNat < r.cumulative.toNat :=
        lt_of_le_of_ne h2 fun he => hc (toNat_inj.mp he)
      obtain ⟨hb, hs, hrest⟩ := h.head h1 hlt hlog
      obtain ⟨k, hk⟩ : ∃ k, r.cumulative.toNat - s.toNat = k + 1 := ⟨_, (Nat.succ_pred (by omega)).symm⟩
      rw [if_neg hc, hb, hk, hflat]
      have ih := Reads.collect h fs rest (collected + f.length) (fragments + 1) (s + 1)
        (fun g hg => hne g (mem_cons_of_mem _ hg)) (by omega) (by omega) hrest
      have hfuel : r.cumulative.toNat - (s + 1).toNat = k := by omega
      rw [hfuel] at ih
      rcases ih with ih | ⟨ih, hle⟩
      · exact .inl ih
      · refine .inr ⟨?_, ?_⟩
        · refine ih.trans ?_
          rw [length_cons, Nat.add_assoc fragments, Nat.add_comm 1]
        · rw [length_cons]
          omega

theorem Reads.copyOut (h : Reads log r) : ∀ (fs rest : List Str) (written : Str) (skip : ℕ)
    (s : UInt32), skip ≤ (fs.headD []).length → r.delivered.toNat ≤ s.toNat →
    s.toNat + fs.length ≤ r.cumulative.toNat → log.drop s.toNat = fs ++ rest →
    r.copyOut (written.length + (fs.flatten.length - skip)) (r.cumulative.toNat - s.toNat) written
      skip s = .ok (written ++ fs.flatten.drop skip)
  | [], rest, written, skip, s, hskip, _, _, _ => by
    unfold RecvRing.copyOut
    simp
  | f :: fs, rest, written, skip, s, hskip, h1, h2, hlog => by
    rw [headD_cons] at hskip
    rw [length_cons] at h2
    have hflat : (f :: fs).flatten.length = f.length + fs.flatten.length := by
      rw [flatten_cons, length_append]
    unfold RecvRing.copyOut
    by_cases hdone : (f :: fs).flatten.length - skip = 0
    · rw [if_pos (by omega), drop_of_length_le (by omega), append_nil]
    · obtain ⟨hb, hs, hrest⟩ := h.head h1 (by omega) hlog
      obtain ⟨k, hk⟩ : ∃ k, r.cumulative.toNat - s.toNat = k + 1 :=
        ⟨_, (Nat.succ_pred (by omega)).symm⟩
      rw [if_neg (by omega), hb, hk]
      have hlen : (f.drop skip).length = f.length - skip := length_drop
      have htake : (f.drop skip).take (min (f.drop skip).length
          (written.length + ((f :: fs).flatten.length - skip) - written.length)) =
            f.drop skip := by
        apply take_of_length_le
        omega
      simp only [htake]
      have ih := Reads.copyOut h fs rest (written ++ f.drop skip) 0 (s + 1) (Nat.zero_le _)
        (by omega) (by omega) hrest
      have hfuel : r.cumulative.toNat - (s + 1).toNat = k := by omega
      have htotal : (written ++ f.drop skip).length + (fs.flatten.length - 0) =
          written.length + ((f :: fs).flatten.length - skip) := by
        rw [length_append, hlen]
        omega
      rw [hfuel, htotal] at ih
      rw [ih, drop_zero, append_assoc, flatten_cons, drop_append_of_le_length hskip]

theorem takeMessage_of_eq (hdc : r.delivered = r.cumulative) (outLen : ℕ) :
    r.takeMessage outLen = (r, none) := by
  rw [takeMessage, if_pos hdc]

/-- **What the reader gets is the next message, whole.** -/
theorem Reads.takeMessage (h : Reads log r) (hdc : r.delivered.toNat ≤ r.cumulative.toNat)
    {m : Message} {c : ℕ} (hc : 0 < c) {rest : List Str}
    (hlog : log.drop r.delivered.toNat = m.fragments c ++ rest) (outLen : ℕ) :
    ((r.takeMessage outLen).1 = r ∧ ∀ bytes, (r.takeMessage outLen).2 ≠ some (.ok bytes)) ∨
      (r.takeMessage outLen = (r.release (m.fragments c).length, some (.ok m.content)) ∧
        r.delivered.toNat + (m.fragments c).length ≤ r.cumulative.toNat) := by
  by_cases heq : r.delivered = r.cumulative
  · rw [takeMessage_of_eq heq]
    exact .inl ⟨rfl, by simp⟩
  have hlt : r.delivered.toNat < r.cumulative.toNat :=
    lt_of_le_of_ne hdc fun he => heq (toNat_inj.mp he)
  obtain ⟨f, fs, hfs⟩ := m.fragments_eq_cons hc
  have hb := (h.head le_rfl hlt (hlog.trans (by rw [hfs]; rfl))).1
  have hheld : (r.cumulative - r.delivered).toNat = r.cumulative.toNat - r.delivered.toNat := by
    rw [toNat_sub, if_pos hdc]
  unfold RecvRing.takeMessage
  rw [if_neg heq, hb]
  simp only
  cases hp : parseLengthPrefix f with
  | error e => exact .inl ⟨rfl, by simp⟩
  | ok total =>
    obtain ⟨rfl, hf4⟩ := m.parse_head hfs hp
    have hstream : m.totalLen + LENGTH_PREFIX_LEN = (m.fragments c).flatten.length := by
      rw [m.flatten_fragments hc, m.length_stream, m.streamLen_eq]
    have hcol := h.collect (m.fragments c) rest 0 0 r.delivered (m.fragment_ne_nil hc) le_rfl hdc
      hlog
    simp only [Nat.zero_add] at hcol
    simp only [hheld, hstream]
    rcases hcol with hcol | ⟨hcol, hle⟩
    · rw [hcol]
      exact .inl ⟨rfl, by simp⟩
    · rw [hcol]
      simp only [ne_eq, not_true_eq_false, if_false]
      by_cases hout : outLen < m.totalLen
      · rw [if_pos hout]
        exact .inl ⟨rfl, by simp⟩
      · have hskip : LENGTH_PREFIX_LEN ≤ ((m.fragments c).headD []).length := by
          rw [hfs]
          exact hf4
        have hcopy := h.copyOut (m.fragments c) rest [] LENGTH_PREFIX_LEN r.delivered hskip le_rfl
          hle hlog
        have htotal : ([] : Str).length + ((m.fragments c).flatten.length - LENGTH_PREFIX_LEN) =
            m.totalLen := by
          rw [length_nil]
          omega
        rw [htotal, m.flatten_fragments hc, m.drop_stream, nil_append] at hcopy
        rw [if_neg hout, hcopy]
        exact .inr ⟨rfl, hle⟩

end Take

end Holds

end RecvRing

end OpenStream.Lowlat
