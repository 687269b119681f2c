import OpenStream.Lowlat.RecvRuns

/-!
# What the receive ring stands for

A ring stands for the fragments it has accepted and not passed yet. Beside the ring a run keeps every
fragment accepted since the last reset.

* **`RecvRing.represented`**
* **`RecvRing.overlooked`**
-/

set_option linter.unusedSectionVars false

namespace OpenStream.Lowlat

open Bytes Runs
open UInt32 (ofNat ofNat_toNat toNat_inj)

variable {n : ℕ} [NeZero n]

namespace RecvRing

/-- A ring and the fragments it has accepted since the last reset. -/
structure Receiver (n : ℕ) where
  ring : RecvRing n
  accepted : List (UInt32 × Str)

/-- The history after a call. -/
def Receiver.run (s : Receiver n) : Use → Receiver n
  | .store sequence body =>
    { ring := (s.ring.store sequence body).1
      accepted := if (s.ring.store sequence body).2 = .accepted then (sequence, body) :: s.accepted
        else s.accepted }
  | .takeMessage outLen => { s with ring := (s.ring.takeMessage outLen).1 }
  | .escapeStall resumable => { s with ring := (s.ring.escapeStall resumable).1 }
  | .resetTo start => ⟨s.ring.resetTo start, []⟩

def receiver (r : RecvRing n) : Machine (Receiver n) Use := ⟨⟨r, []⟩, fun s u => some (s.run u)⟩

/-- A fragment inside the window, and the number after it, are below the wrap. -/
def BelowWrap (s : Receiver n) : Use → Prop
  | .store sequence _ =>
    Seq.lt sequence s.ring.delivered = false →
      (Seq.distance s.ring.delivered sequence).toNat < n →
        s.ring.delivered.toNat + (Seq.distance s.ring.delivered sequence).toNat + 1 < 2 ^ 32
  | _ => True

instance (s : Receiver n) : (u : Use) → Decidable (BelowWrap s u)
  | .store _ _ => inferInstanceAs (Decidable (_ → _ → _))
  | .takeMessage _ | .escapeStall _ | .resetTo _ => .isTrue trivial

/-- A fragment was accepted and is neither delivered nor skipped. -/
def Held (r : RecvRing n) (accepted : List (UInt32 × Str)) (q : UInt32) (body : Str) : Prop :=
  r.delivered.toNat ≤ q.toNat ∧ (q, body) ∈ accepted

/-! ## The invariant -/

/-- The ring holds what it stands for, and nothing is missing up to the frontier. -/
structure Lays (r : RecvRing n) (accepted : List (UInt32 × Str)) : Prop where
  reader_le : r.delivered.toNat ≤ r.cumulative.toNat
  frontier_le : r.cumulative.toNat ≤ r.highest.toNat
  window : r.highest.toNat ≤ r.delivered.toNat + n
  held_lt : ∀ q body, Held r accepted q body → q.toNat < r.highest.toNat
  slot : ∀ p, r.delivered.toNat ≤ p → p < r.delivered.toNat + n → ∀ body,
    r.slotAt p = ⟨body, true⟩ ↔ ∃ q, q.toNat = p ∧ Held r accepted q body
  contiguous : ∀ p, r.delivered.toNat ≤ p → p < r.cumulative.toNat → (r.slotAt p).ready = true

/-- And the fragment at the frontier is missing. -/
structure Represents (r : RecvRing n) (accepted : List (UInt32 × Str)) : Prop
    extends Lays r accepted where
  frontier : r.cumulative = r.highest ∨ (r.slotAt r.cumulative.toNat).ready = false

section Step

variable {r : RecvRing n} {accepted : List (UInt32 × Str)}

theorem Lays.advance (h : Lays r accepted) : Represents r.advance accepted := by
  obtain ⟨k, hk, hadv, hall, hend⟩ := r.advance_cases
  have h1 := h.reader_le
  have h2 := h.frontier_le
  have hlt := r.highest.toNat_lt
  have hfuel : (r.highest - r.cumulative).toNat = r.highest.toNat - r.cumulative.toNat := by
    rw [Serial.toNat_sub, if_pos h2]
  have hnat (j : ℕ) (hj : j ≤ k) : (seqAt r.cumulative j).toNat = r.cumulative.toNat + j :=
    Serial.toNat_add_ofNat (by omega)
  rw [hadv]
  refine ⟨⟨?_, ?_, h.window, h.held_lt, h.slot, fun p hp1 hp2 => ?_⟩, ?_⟩
  · show r.delivered.toNat ≤ (seqAt r.cumulative k).toNat
    rw [hnat k le_rfl]
    omega
  · show (seqAt r.cumulative k).toNat ≤ r.highest.toNat
    rw [hnat k le_rfl]
    omega
  · change p < (seqAt r.cumulative k).toNat at hp2
    rw [hnat k le_rfl] at hp2
    rcases Nat.lt_or_ge p r.cumulative.toNat with hp | hp
    · exact h.contiguous p hp1 hp
    · have hready := hall (p - r.cumulative.toNat) (by omega)
      rw [slotOf, slotIndex, hnat _ (by omega), Nat.add_sub_cancel' hp] at hready
      exact hready
  · show seqAt r.cumulative k = r.highest ∨ (r.slotAt (seqAt r.cumulative k).toNat).ready = false
    refine hend.imp (fun hk => ?_) (fun hready => hready)
    rw [hk]
    exact seqAt_toNat_sub r.cumulative r.highest

theorem Lays.skip (h : Lays r accepted) {k : ℕ} {c : UInt32}
    (hk : r.delivered.toNat + k ≤ r.highest.toNat)
    (hc : c.toNat = max r.cumulative.toNat (r.delivered.toNat + k)) :
    Lays { r.release k with cumulative := c } accepted := by
  have h1 := h.reader_le
  have h2 := h.frontier_le
  have h3 := h.window
  have hlt := r.highest.toNat_lt
  have hd : (r.delivered + ofNat k).toNat = r.delivered.toNat + k :=
    Serial.toNat_add_ofNat (by omega)
  have hslot (p : ℕ) (hp1 : r.delivered.toNat + k ≤ p) (hp2 : p < r.delivered.toNat + k + n) :
      (r.release k).slotAt p = if p < r.delivered.toNat + n then r.slotAt p else {} :=
    slotAt_release_window (by omega) hp1 hp2
  have hheld (q : UInt32) (body : Str) :
      Held { r.release k with cumulative := c } accepted q body ↔
        r.delivered.toNat + k ≤ q.toNat ∧ Held r accepted q body := by
    show (r.delivered + ofNat k).toNat ≤ q.toNat ∧ _ ↔ _
    rw [hd]
    constructor
    · rintro ⟨hq, hmem⟩
      exact ⟨hq, by omega, hmem⟩
    · rintro ⟨hq, -, hmem⟩
      exact ⟨hq, hmem⟩
  refine ⟨?_, ?_, ?_, fun q body hq => ?_, fun p hp1 hp2 body => ?_, fun p hp1 hp2 => ?_⟩
  · show (r.delivered + ofNat k).toNat ≤ c.toNat
    omega
  · show c.toNat ≤ r.highest.toNat
    omega
  · show r.highest.toNat ≤ (r.delivered + ofNat k).toNat + n
    omega
  · exact h.held_lt q body ((hheld q body).mp hq).2
  · change (r.delivered + ofNat k).toNat ≤ p at hp1
    change p < (r.delivered + ofNat k).toNat + n at hp2
    show (r.release k).slotAt p = _ ↔ _
    rw [hd] at hp1 hp2
    rw [hslot p hp1 hp2]
    simp only [hheld]
    split
    · next hp =>
      rw [h.slot p (by omega) hp]
      refine exists_congr fun q => and_congr_right fun hq => ?_
      rw [and_iff_right (by omega)]
    · next hp =>
      -- nothing is accepted past the window
      refine ⟨fun hslot => (by cases hslot), ?_⟩
      rintro ⟨q, hq, -, hmem⟩
      have := h.held_lt q body hmem
      omega
  · change (r.delivered + ofNat k).toNat ≤ p at hp1
    change p < c.toNat at hp2
    show ((r.release k).slotAt p).ready = true
    rw [hd] at hp1
    rw [hslot p hp1 (by omega), if_pos (by omega)]
    exact h.contiguous p (by omega) (by omega)

theorem Lays.place (h : Lays r accepted) (hn : n < 2 ^ 31) {q : UInt32}
    (hq1 : r.delivered.toNat ≤ q.toNat) (hq2 : q.toNat < r.delivered.toNat + n)
    (hq3 : q.toNat + 1 < 2 ^ 32) (hfree : (r.slotAt q.toNat).ready = false) (body : Str) :
    Lays (r.place q body) ((q, body) :: accepted) := by
  have h1 := h.reader_le
  have h2 := h.frontier_le
  have h3 := h.window
  have hnext : (q + 1).toNat = q.toNat + 1 := Serial.toNat_succ hq3
  have hhigh : (r.place q body).highest.toNat = max r.highest.toNat (q.toNat + 1) := by
    have hgt : Seq.gt (q + 1) r.highest = true ↔ r.highest.toNat < q.toNat + 1 := by
      have hzero := gt_seqAt_iff (s := 0) (p := (q + 1).toNat) (q := r.highest.toNat)
        (by omega) (by omega)
      rwa [seqAt_zero_left, seqAt_zero_left, ofNat_toNat, ofNat_toNat, hnext] at hzero
    simp only [RecvRing.place]
    split_ifs with hif
    · rw [hnext, max_eq_right (hgt.mp hif).le]
    · rw [max_eq_left (not_lt.mp (mt hgt.mpr hif))]
  have hslot (p : ℕ) (hp1 : r.delivered.toNat ≤ p) (hp2 : p < r.delivered.toNat + n) :
      (r.place q body).slotAt p = if p = q.toNat then ⟨body, true⟩ else r.slotAt p := by
    rw [slotAt_place]
    refine if_congr ⟨fun heq => ?_, fun heq => by rw [heq]⟩ rfl rfl
    exact Serial.slot_inj (congrArg Fin.val heq) (by omega) (by omega)
  -- nothing was accepted there before
  have hnew (b : Str) : ¬Held r accepted q b := by
    intro hheld
    have hready := (h.slot q.toNat hq1 hq2 b).mpr ⟨q, rfl, hheld⟩
    rw [hready] at hfree
    cases hfree
  have hheld (x : UInt32) (b : Str) : Held (r.place q body) ((q, body) :: accepted) x b ↔
      (x = q ∧ b = body) ∨ Held r accepted x b := by
    unfold Held
    rw [List.mem_cons, Prod.mk.injEq, show (r.place q body).delivered = r.delivered from rfl]
    constructor
    · rintro ⟨hx, ⟨rfl, rfl⟩ | hmem⟩
      · exact .inl ⟨rfl, rfl⟩
      · exact .inr ⟨hx, hmem⟩
    · rintro (⟨rfl, rfl⟩ | ⟨hx, hmem⟩)
      · exact ⟨hq1, .inl ⟨rfl, rfl⟩⟩
      · exact ⟨hx, .inr hmem⟩
  refine ⟨h1, ?_, ?_, fun x b hx => ?_, fun p hp1 hp2 b => ?_, fun p hp1 hp2 => ?_⟩
  · rw [hhigh]
    exact h2.trans (le_max_left _ _)
  · rw [hhigh]
    exact max_le h3 hq2
  · rw [hhigh]
    rcases (hheld x b).mp hx with ⟨rfl, -⟩ | hx
    · omega
    · have := h.held_lt x b hx
      omega
  · rw [hslot p hp1 hp2]
    simp only [hheld]
    split
    · next hp =>
      constructor
      · intro heq
        cases heq
        exact ⟨q, hp.symm, .inl ⟨rfl, rfl⟩⟩
      · rintro ⟨x, hx, ⟨-, rfl⟩ | hx'⟩
        · rfl
        · rw [toNat_inj.mp (hx.trans hp)] at hx'
          exact absurd hx' (hnew b)
    · next hp =>
      rw [h.slot p hp1 hp2]
      refine exists_congr fun x => and_congr_right fun hx => ?_
      rw [or_iff_right]
      rintro ⟨rfl, -⟩
      exact hp hx.symm
  · change p < r.cumulative.toNat at hp2
    rw [hslot p hp1 (by omega)]
    split_ifs
    · rfl
    · exact h.contiguous p hp1 hp2

theorem Represents.resetTo (r : RecvRing n) (start : UInt32) : Represents (r.resetTo start) [] := by
  refine ⟨⟨le_rfl, le_rfl, Nat.le_add_right _ _, fun q b hq => ?_, fun p hp1 hp2 b => ?_,
    fun p hp1 hp2 => ?_⟩, .inl rfl⟩
  · exact absurd hq.2 List.not_mem_nil
  · refine ⟨fun heq => (by cases heq), ?_⟩
    rintro ⟨q, -, -, hmem⟩
    exact absurd hmem List.not_mem_nil
  · change start.toNat ≤ p at hp1
    change p < start.toNat at hp2
    omega

/-- **The step lemma.** -/
theorem Represents.run (hn : n < 2 ^ 31) {s : Receiver n} (h : Represents s.ring s.accepted)
    {u : Use} (hok : BelowWrap s u) : Represents (s.run u).ring (s.run u).accepted := by
  have h1 := h.reader_le
  have h2 := h.frontier_le
  have h3 := h.window
  have hlt := s.ring.highest.toNat_lt
  cases u with
  | store sequence body =>
    simp only [Receiver.run]
    rcases store_cases s.ring sequence body with ⟨he, hno⟩ | ⟨he, hge, hdist, hfree⟩
    · rw [he, if_neg hno]
      exact h
    · have hwrap := hok hge hdist
      rw [he, if_pos rfl]
      have hnat : sequence.toNat =
          s.ring.delivered.toNat + (Seq.distance s.ring.delivered sequence).toNat := by
        rcases distance_cases hge with ⟨hle, hd⟩ | ⟨hle, hd⟩ <;> omega
      exact (h.toLays.place hn (by omega) (by omega) (by omega) hfree body).advance
  | takeMessage outLen =>
    simp only [Receiver.run]
    rcases s.ring.takeMessage_cases outLen with he | ⟨k, hk, he⟩
    · rw [he]
      exact h
    · rw [Serial.toNat_sub, if_pos h1] at hk
      rw [he]
      have hskip := h.toLays.skip (k := k) (c := s.ring.cumulative) (by omega)
        (max_eq_left (by omega)).symm
      refine ⟨hskip, h.frontier.imp_right fun hready => ?_⟩
      show ((s.ring.release k).slot _).ready = false
      rw [slot_release]
      split_ifs
      · rfl
      · exact hready
  | escapeStall resumable =>
    simp only [Receiver.run]
    have hw : s.ring.windowUsed.toNat = s.ring.highest.toNat - s.ring.delivered.toNat := by
      rw [RecvRing.windowUsed, Serial.toNat_sub, if_pos (by omega)]
    obtain ⟨furthest, best, -, -, he | ⟨k, -, hk, -, -, he⟩⟩ :=
      s.ring.escapeStall_cases resumable
    · rw [he.1]
      exact h
    · rw [he]
      refine (h.toLays.skip (k := k) (by omega) ?_).advance
      have htarget : (seqAt s.ring.delivered k).toNat = s.ring.delivered.toNat + k :=
        Serial.toNat_add_ofNat (by omega)
      have hltk : Seq.lt s.ring.cumulative (seqAt s.ring.delivered k) = true ↔
          s.ring.cumulative.toNat < s.ring.delivered.toNat + k := by
        have hzero := gt_seqAt_iff (s := 0) (p := (seqAt s.ring.delivered k).toNat)
          (q := s.ring.cumulative.toNat) (by omega) (by omega)
        rwa [seqAt_zero_left, seqAt_zero_left, ofNat_toNat, ofNat_toNat,
          htarget] at hzero
      split_ifs with hif
      · rw [htarget, max_eq_right (hltk.mp hif).le]
      · rw [max_eq_left (not_lt.mp (mt hltk.mpr hif))]
  | resetTo start => exact .resetTo s.ring start

end Step

/-! ## Every run -/

theorem represents_of_reach {bodiesLen slotLen : ℕ} {r₀ : RecvRing n} (hn : n < 2 ^ 31)
    (hnew : RecvRing.new n bodiesLen slotLen = .ok r₀) {s : Receiver n}
    (h : (receiver r₀).ReachVia BelowWrap s) : Represents s.ring s.accepted := by
  refine h.invariant (I := fun s => Represents s.ring s.accepted) ?_ ?_
  · unfold RecvRing.new at hnew
    split_ifs at hnew
    cases hnew
    exact .resetTo (fresh slotLen) 0
  · rintro s u s' hs hok hstep
    cases hstep
    exact hs.run hn hok

section

variable {r : RecvRing n} {accepted : List (UInt32 × Str)}

section

variable (h : Represents r accepted)
include h

theorem Represents.held {q : UInt32}
    (hq1 : r.delivered.toNat ≤ q.toNat) (hq2 : q.toNat < r.cumulative.toNat) :
    ∃ body, Held r accepted q body := by
  have h2 := h.frontier_le
  have h3 := h.window
  have hready := h.contiguous q.toNat hq1 hq2
  obtain ⟨x, hx, hheld⟩ := (h.slot q.toNat hq1 (by omega) (r.slotAt q.toNat).body).mp
    (by rw [← hready])
  rw [toNat_inj.mp hx] at hheld
  exact ⟨_, hheld⟩

theorem Represents.not_held (body : Str) : ¬Held r accepted r.cumulative body := by
  intro hheld
  have hlt := h.held_lt _ _ hheld
  have h3 := h.window
  rcases h.frontier with heq | hready
  · rw [heq] at hlt
    exact absurd hlt (lt_irrefl _)
  · have hslot := (h.slot r.cumulative.toNat h.reader_le (by omega) body).mpr ⟨_, rfl, hheld⟩
    rw [hslot] at hready
    cases hready

theorem Represents.run_length (k : ℕ) :
    (∀ j < k, ∃ body, Held r accepted (seqAt r.delivered j) body) ↔
      k ≤ r.cumulative.toNat - r.delivered.toNat := by
  have h1 := h.reader_le
  have hlt := r.cumulative.toNat_lt
  constructor
  · intro hall
    by_contra hk
    obtain ⟨body, hheld⟩ := hall (r.cumulative.toNat - r.delivered.toNat) (by omega)
    have hat : seqAt r.delivered (r.cumulative.toNat - r.delivered.toNat) = r.cumulative := by
      have hsub : r.cumulative.toNat - r.delivered.toNat = (r.cumulative - r.delivered).toNat := by
        rw [Serial.toNat_sub, if_pos h1]
      rw [hsub, seqAt_toNat_sub]
    rw [hat] at hheld
    exact h.not_held body hheld
  · intro hk j hj
    have hnat : (seqAt r.delivered j).toNat = r.delivered.toNat + j :=
      Serial.toNat_add_ofNat (by omega)
    exact h.held (by omega) (by omega)

theorem Represents.hasGap_iff :
    r.hasGap = true ↔ ∃ q : UInt32, r.delivered.toNat ≤ q.toNat ∧ q.toNat < r.highest.toNat ∧
      ¬∃ body, Held r accepted q body := by
  have h2 := h.frontier_le
  unfold RecvRing.hasGap
  rw [decide_eq_true_iff]
  constructor
  · intro hne
    have hlt : r.cumulative.toNat < r.highest.toNat :=
      lt_of_le_of_ne h2 fun heq => hne (toNat_inj.mp heq)
    exact ⟨r.cumulative, h.reader_le, hlt, fun ⟨body, hheld⟩ => h.not_held body hheld⟩
  · rintro ⟨q, hq1, hq2, hmiss⟩ heq
    rw [← heq] at hq2
    exact hmiss (h.held hq1 hq2)

end

theorem exists_slotAt (d : ℕ) (i : Fin n) : ∃ p, d ≤ p ∧ p < d + n ∧ i = Fin.ofNat n p := by
  have hn := NeZero.pos n
  have hd := Nat.mod_lt d hn
  have hi := i.isLt
  have hdm := Nat.div_add_mod d n
  refine ⟨d + (i.val + (n - d % n)) % n, Nat.le_add_right _ _, ?_, ?_⟩
  · have := Nat.mod_lt (i.val + (n - d % n)) hn
    omega
  · apply Fin.ext
    rw [Fin.val_ofNat, Nat.add_mod_mod]
    have hsum : d + (i.val + (n - d % n)) = i.val + n * (d / n + 1) := by
      rw [Nat.mul_succ]
      omega
    rw [hsum, Nat.add_mul_mod_self_left, Nat.mod_eq_of_lt hi]

theorem Represents.slot_iff (h : Represents r accepted) (i : Fin n) (body : Str) :
    r.slot i = ⟨body, true⟩ ↔ ∃ q : UInt32, q.toNat < r.delivered.toNat + n ∧
      i = slotIndex n q ∧ Held r accepted q body := by
  constructor
  · intro hslot
    obtain ⟨p, hp1, hp2, hi⟩ := exists_slotAt r.delivered.toNat i
    rw [hi] at hslot
    obtain ⟨q, hq, hheld⟩ := (h.slot p hp1 hp2 body).mp hslot
    exact ⟨q, by omega, by rw [hi, ← hq]; rfl, hheld⟩
  · rintro ⟨q, hq, rfl, hheld⟩
    exact (h.slot q.toNat hheld.1 hq body).mpr ⟨q, rfl, hheld⟩

end

/-- **The ring stands for what it has accepted**, in every state of a run below the wrap of a ring
of fewer than `2 ^ 31` slots. -/
theorem represented {bodiesLen slotLen : ℕ} {r₀ : RecvRing n} (hn : n < 2 ^ 31)
    (hnew : RecvRing.new n bodiesLen slotLen = .ok r₀) {s : Receiver n}
    (h : (receiver r₀).ReachVia BelowWrap s) :
    (s.ring.delivered.toNat ≤ s.ring.cumulative.toNat ∧
      s.ring.cumulative.toNat ≤ s.ring.highest.toNat ∧
      s.ring.highest.toNat ≤ s.ring.delivered.toNat + n) ∧
    (∀ i body, s.ring.slot i = ⟨body, true⟩ ↔ ∃ q : UInt32,
      q.toNat < s.ring.delivered.toNat + n ∧ i = slotIndex n q ∧
        Held s.ring s.accepted q body) ∧
    (∀ q : UInt32, s.ring.delivered.toNat ≤ q.toNat → q.toNat < s.ring.cumulative.toNat →
      ∃ body, Held s.ring s.accepted q body) ∧
    (s.ring.cumulative ≠ s.ring.highest →
      ¬∃ body, Held s.ring s.accepted s.ring.cumulative body) ∧
    (∀ k, (∀ j < k, ∃ body, Held s.ring s.accepted (seqAt s.ring.delivered j) body) ↔
      k ≤ s.ring.cumulativeAck.toNat - s.ring.delivered.toNat) ∧
    (s.ring.hasGap = true ↔ ∃ q : UInt32, s.ring.delivered.toNat ≤ q.toNat ∧
      q.toNat < s.ring.highest.toNat ∧ ¬∃ body, Held s.ring s.accepted q body) := by
  have hr := represents_of_reach hn hnew h
  refine ⟨⟨hr.reader_le, hr.frontier_le, hr.window⟩, hr.slot_iff, fun q hq1 hq2 => hr.held hq1 hq2,
    fun _ => ?_, hr.run_length, hr.hasGap_iff⟩
  rintro ⟨body, hheld⟩
  exact hr.not_held body hheld

/-- Fragments zero, one and three of a stream. -/
theorem represented_gap : ∃ s : Receiver 8,
    (receiver (fresh 16)).ReachVia BelowWrap s ∧ s.ring.hasGap = true ∧
      s.ring.cumulativeAck = 2 ∧ ∃ q : UInt32, s.ring.delivered.toNat ≤ q.toNat ∧
        q.toNat < s.ring.highest.toNat ∧ ¬∃ body, Held s.ring s.accepted q body := by
  obtain ⟨s, hs, hgap, hcum⟩ := Machine.exists_reachVia
    (M := receiver (fresh 16 : RecvRing 8)) BelowWrap
    [.store 1 [5], .store 0 [4], .store 3 [6]]
    (fun s => s.ring.hasGap = true ∧ s.ring.cumulativeAck = 2) (by decide +kernel)
  have hnew : RecvRing.new 8 128 16 = .ok (fresh 16 : RecvRing 8) := rfl
  obtain ⟨-, -, -, -, -, hiff⟩ := represented (by decide) hnew hs
  exact ⟨s, hs, hgap, hcum, hiff.mp hgap⟩

/-! ## A ring as wide as the comparison -/

abbrev HALF_SPACE : ℕ := 2 ^ 31

instance : NeZero HALF_SPACE := ⟨by decide⟩

def acceptedLast : RecvRing HALF_SPACE where
  slot := Function.update (fun _ => {}) (slotIndex HALF_SPACE 2147483647) ⟨[1], true⟩
  slotLen := 16
  delivered := 0
  cumulative := 0
  highest := 0

/-- And then the one before it. -/
def acceptedBoth : RecvRing HALF_SPACE :=
  { acceptedLast with
    slot := Function.update acceptedLast.slot (slotIndex HALF_SPACE 2147483646) ⟨[2], true⟩
    highest := 2147483647 }

theorem store_both : acceptedLast.store 2147483646 [2] = (acceptedBoth, .accepted) := by
  have h1 : Seq.lt 2147483646 acceptedLast.delivered = false := by decide +kernel
  have h2 : ¬HALF_SPACE ≤ (Seq.distance acceptedLast.delivered 2147483646).toNat := by
    decide +kernel
  have h3 : (acceptedLast.slot (slotIndex HALF_SPACE 2147483646)).ready = false := by
    decide +kernel
  have h4 : acceptedLast.place 2147483646 [2] = acceptedBoth := rfl
  have h5 : acceptedBoth.advance = acceptedBoth := rfl
  unfold store
  rw [h1, if_neg Bool.false_ne_true, if_neg h2, if_neg (by decide), if_neg (by decide), h3,
    if_neg Bool.false_ne_true, h4, h5]

theorem escapeStall_both : (acceptedBoth.escapeStall fun _ => false).1 =
    (acceptedBoth.jumped 2147483646).advance := by
  have hw : acceptedBoth.windowUsed.toNat = 2147483647 := by decide +kernel
  have hocc : acceptedBoth.Occupied 2147483646 := by
    unfold Occupied
    decide +kernel
  have hnone (j : ℕ) : ¬acceptedBoth.Resumes (fun _ => false) j := by
    simp [Resumes, Option.any_false]
  obtain ⟨furthest, best, hf, hb, hesc⟩ := acceptedBoth.escapeStall_cases fun _ => false
  have htarget : best.or furthest = some 2147483646 := by
    cases best with
    | some b => exact absurd hb.2.1 (hnone b)
    | none =>
      cases furthest with
      | none => exact absurd hocc (hf _ (by omega))
      | some f =>
        obtain ⟨hfw, -, hlast⟩ := hf
        have hle : 2147483646 ≤ f := by
          by_contra hlt
          exact hlast 2147483646 (by omega) (by omega) hocc
        rw [Option.none_or, show f = 2147483646 by omega]
  rw [htarget] at hesc
  rcases hesc with ⟨-, hno⟩ | ⟨k, -, -, -, hk, he⟩
  · exact absurd (hno (by decide +kernel) _ rfl) (by decide)
  · cases hk
    rw [he]

/-- **A fragment is overlooked**: in a ring of `2 ^ 31` slots the last one of the window leaves no
trace in the highest mark. -/
theorem overlooked : ∃ s : Receiver HALF_SPACE,
    (receiver (fresh 16)).ReachVia BelowWrap s ∧
      ¬∀ k, (∀ j < k, ∃ body, Held s.ring s.accepted (seqAt s.ring.delivered j) body) ↔
        k ≤ s.ring.cumulativeAck.toNat - s.ring.delivered.toNat := by
  have hone : (receiver (fresh 16 : RecvRing HALF_SPACE)).ReachVia BelowWrap
      ⟨acceptedLast, [(2147483647, [1])]⟩ :=
    .step (a := .store 2147483647 [1]) .start (by decide +kernel) rfl
  have htwo : (receiver (fresh 16 : RecvRing HALF_SPACE)).ReachVia BelowWrap
      ⟨acceptedBoth, [(2147483646, [2]), (2147483647, [1])]⟩ :=
    .step (a := .store 2147483646 [2]) hone (by decide +kernel) (by
      simp only [receiver, Receiver.run, store_both, if_true])
  have hthree : (receiver (fresh 16 : RecvRing HALF_SPACE)).ReachVia BelowWrap
      ⟨(acceptedBoth.jumped 2147483646).advance, [(2147483646, [2]), (2147483647, [1])]⟩ :=
    .step (a := .escapeStall fun _ => false) htwo trivial (by
      simp only [receiver, Receiver.run, escapeStall_both])
  refine ⟨_, hthree, fun hall => ?_⟩
  obtain ⟨k, hk, hadv, -⟩ := (acceptedBoth.jumped 2147483646).advance_cases
  have hd : (acceptedBoth.jumped 2147483646).delivered = 2147483646 := by decide +kernel
  have hc : (acceptedBoth.jumped 2147483646).cumulative = 2147483646 := by decide +kernel
  have hh : (acceptedBoth.jumped 2147483646).highest = 2147483647 := by decide +kernel
  rw [hh, hc, show ((2147483647 : UInt32) - 2147483646).toNat = 1 by decide] at hk
  have htwice : 2 ≤ (seqAt 2147483646 k).toNat - (2147483646 : UInt32).toNat := by
    have hrun := (hall 2).mp fun j hj => by
      rw [hadv]
      simp only [Held, hd]
      obtain rfl | rfl : j = 0 ∨ j = 1 := by omega
      · exact ⟨[2], by decide +kernel, by decide +kernel⟩
      · exact ⟨[1], by decide +kernel, by decide +kernel⟩
    rw [hadv] at hrun
    simpa only [cumulativeAck, hd, hc] using hrun
  obtain rfl | rfl : k = 0 ∨ k = 1 := by omega
  · exact absurd htwice (by decide +kernel)
  · exact absurd htwice (by decide +kernel)

end RecvRing

end OpenStream.Lowlat
