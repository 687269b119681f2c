import OpenStream.Lowlat.Drain
import OpenStream.Lowlat.SendChannel
import OpenStream.Lowlat.Wrap

/-!
# Runs of the send ring

What each call can do to a ring, in any state and across the wrap of the sequence numbers.

* `SendRing.Scanned`, **`scanned_pollSend`**: a scan passes fragments by until it emits one, is refused
  one, or comes to the end.
-/

set_option linter.unusedSectionVars false

namespace OpenStream.Lowlat

open Bytes Runs Serial Lowlat.Seq
open UInt32 (ofNat)

variable {n : ℕ} [NeZero n] {F : Type} [F64 F]

def SendSlot.retransmitting (s : SendSlot F) : Bool := decide (0 < s.retransmits) || s.nackResent

namespace SendRing

variable {r : SendRing n F} {nowMs srttMs : F}

/-! ## The scan -/

theorem ne_next {cursor : UInt32} {k : ℕ} (hk : (r.next - cursor).toNat = k + 1) :
    cursor ≠ r.next := by
  rintro rfl
  rw [UInt32.sub_self] at hk
  cases hk

theorem toNat_next_sub {cursor : UInt32} {k : ℕ} (hk : (r.next - cursor).toNat = k + 1) :
    (r.next - (cursor + 1)).toNat = k := by
  have hlt := (r.next - cursor).toNat_lt
  have hsub : r.next - (cursor + 1) = r.next - cursor - 1 := by
    simp only [UInt32.sub_eq_add_neg, UInt32.neg_add]
    ac_rfl
  rw [hsub, toNat_sub, UInt32.toNat_one, hk, if_pos (by omega), Nat.add_sub_cancel]

def scanned (r : SendRing n F) (cursor : UInt32) (outstanding stale : ℕ) : SendRing n F :=
  { r with cursor, outstanding, stale }

theorem classify_eq (r : SendRing n F) (i : Fin n) (nowMs srttMs : F) (lv : Level F) :
    ∃ stale, r.classify i nowMs srttMs lv = { r with stale } := by
  simp only [classify]
  split_ifs
  · exact ⟨_, rfl⟩
  · exact ⟨_, rfl⟩
  · exact ⟨_, rfl⟩

theorem transmit_eq (r : SendRing n F) (nowMs srttMs : F) (lv : Level F) :
    ∃ stale, r.transmit nowMs srttMs lv = { r with
      slot := Function.update r.slot (slotIndex n r.cursor)
        (SendSlot.transmitted (r.slot (slotIndex n r.cursor))
          (r.nacked r.cursor (r.slot (slotIndex n r.cursor))) nowMs)
      outstanding := satAdd 32 r.outstanding 1
      bytesSent := satAdd 64 r.bytesSent (r.slot (slotIndex n r.cursor)).body.length
      retransmitted := if (r.slot (slotIndex n r.cursor)).sent then satAdd 64 r.retransmitted 1
        else r.retransmitted
      cursor := r.cursor + 1
      stale } := by
  simp only [transmit]
  obtain ⟨stale, hs⟩ := classify_eq _ (slotIndex n r.cursor) nowMs srttMs lv
  rw [hs]
  exact ⟨stale, rfl⟩

theorem pollLoop_passes (nowMs srttMs : F) (lv : Level F) (outLen : ℕ) {k : ℕ} (hc : r.cursor ≠ r.next)
    (hpass : (r.slot (slotIndex n r.cursor)).occupied = true → r.outstanding < OUTSTANDING_CAP →
      r.due r.cursor (r.slot (slotIndex n r.cursor)) nowMs srttMs = false) :
    ∃ outstanding stale, pollLoop nowMs srttMs lv outLen (k + 1) r =
        pollLoop nowMs srttMs lv outLen k (r.scanned (r.cursor + 1) outstanding stale) ∧
      (OUTSTANDING_CAP ≤ r.outstanding → outstanding = r.outstanding) ∧
      (r.outstanding < OUTSTANDING_CAP → outstanding =
        if (r.slot (slotIndex n r.cursor)).occupied &&
          (r.slot (slotIndex n r.cursor)).retransmitting then r.outstanding + 1
        else r.outstanding) := by
  have hclass (r' : SendRing n F) : ∃ stale,
      { r'.classify (slotIndex n r.cursor) nowMs srttMs lv with cursor := r.cursor + 1 } =
        r'.scanned (r.cursor + 1) r'.outstanding stale := by
    obtain ⟨stale, hs⟩ := classify_eq r' (slotIndex n r.cursor) nowMs srttMs lv
    exact ⟨stale, by rw [hs]; rfl⟩
  simp only [pollLoop]
  rw [if_neg hc]
  split
  · next hocc =>
    refine ⟨r.outstanding, r.stale, rfl, fun _ => rfl, fun _ => ?_⟩
    rw [if_neg (by simp_all)]
  next hocc =>
    rw [Bool.not_eq_true, Bool.not_eq_false'] at hocc
    split
    · next hcap =>
      obtain ⟨stale, hs⟩ := hclass r
      exact ⟨r.outstanding, stale, by rw [hs], fun _ => rfl, fun h => absurd hcap (by omega)⟩
    next hcap =>
      have hdue := hpass hocc (by omega)
      have hsat : satAdd 32 r.outstanding 1 = r.outstanding + 1 := by
        unfold satAdd OUTSTANDING_CAP at *
        omega
      rw [hdue, Bool.not_false, if_pos rfl, hocc, Bool.true_and, hsat]
      unfold SendSlot.retransmitting
      split
      · obtain ⟨stale, hs⟩ := hclass { r with outstanding := r.outstanding + 1 }
        exact ⟨r.outstanding + 1, stale, by rw [hs]; rfl, fun h => absurd h hcap, fun _ => rfl⟩
      · obtain ⟨stale, hs⟩ := hclass r
        exact ⟨r.outstanding, stale, by rw [hs], fun _ => rfl, fun _ => rfl⟩

/-- What a scan comes to. -/
inductive Scanned (r : SendRing n F) (nowMs srttMs : F) (lv : Level F) :
    SendRing n F × Option (Except Error Data) → Prop
  | ended {outstanding stale : ℕ} (ho : r.outstanding ≤ outstanding) :
    Scanned r nowMs srttMs lv ({ r.scanned r.base outstanding stale with nackBelow := none }, none)
  | refused {j outstanding stale : ℕ} {error : Error} (hj : j < (r.next - r.cursor).toNat)
      (ho : r.outstanding ≤ outstanding) :
    Scanned r nowMs srttMs lv
      (r.scanned (r.cursor + ofNat j) outstanding stale, some (.error error))
  | emits {j outstanding stale : ℕ} (hj : j < (r.next - r.cursor).toNat)
      (ho : r.outstanding ≤ outstanding) (hcap : outstanding < OUTSTANDING_CAP)
      (hocc : (r.slot (slotIndex n (r.cursor + ofNat j))).occupied = true) :
    Scanned r nowMs srttMs lv
      ((r.scanned (r.cursor + ofNat j) outstanding stale).transmit nowMs srttMs lv,
        some (.ok (r.scanned (r.cursor + ofNat j) outstanding stale).packetAt))

theorem add_one_add (x : UInt32) (j : ℕ) : x + 1 + ofNat j = x + ofNat (j + 1) := by
  rw [← ofNat_succ, UInt32.add_comm (ofNat j) 1, UInt32.add_assoc]

theorem Scanned.pass {lv : Level F} {k outstanding stale : ℕ}
    {out : SendRing n F × Option (Except Error Data)} (hk : (r.next - r.cursor).toNat = k + 1)
    (ho : r.outstanding ≤ outstanding)
    (h : Scanned (r.scanned (r.cursor + 1) outstanding stale) nowMs srttMs lv out) :
    Scanned r nowMs srttMs lv out := by
  have hlast := toNat_next_sub hk
  cases h with
  | ended ho' => exact .ended (ho.trans ho')
  | @refused j o t e hj ho' =>
    have hj : j < (r.next - (r.cursor + 1)).toNat := hj
    have hr : Scanned r nowMs srttMs lv
        (r.scanned (r.cursor + ofNat (j + 1)) o t, some (.error e)) :=
      .refused (by omega) (ho.trans ho')
    rw [← add_one_add] at hr
    exact hr
  | @emits j o t hj ho' hcap hocc =>
    have hj : j < (r.next - (r.cursor + 1)).toNat := hj
    have hocc : (r.slot (slotIndex n (r.cursor + 1 + ofNat j))).occupied = true := hocc
    have hr : Scanned r nowMs srttMs lv
        ((r.scanned (r.cursor + ofNat (j + 1)) o t).transmit nowMs srttMs lv,
          some (.ok (r.scanned (r.cursor + ofNat (j + 1)) o t).packetAt)) :=
      .emits (by omega) (ho.trans ho') hcap (by rw [← add_one_add]; exact hocc)
    rw [← add_one_add] at hr
    exact hr

theorem scanned_pollLoop (nowMs srttMs : F) (lv : Level F) (outLen : ℕ) :
    ∀ (k : ℕ) (r : SendRing n F), (r.next - r.cursor).toNat = k →
    Scanned r nowMs srttMs lv (pollLoop nowMs srttMs lv outLen k r)
  | 0, r, _ => @Scanned.ended n _ F _ r nowMs srttMs lv _ r.stale le_rfl
  | k + 1, r, hk => by
    by_cases hstop : (r.slot (slotIndex n r.cursor)).occupied = true ∧
        r.outstanding < OUTSTANDING_CAP ∧
        r.due r.cursor (r.slot (slotIndex n r.cursor)) nowMs srttMs = true
    · obtain ⟨hocc, hcap, hdue⟩ := hstop
      have hzero : r.cursor + ofNat 0 = r.cursor := UInt32.add_zero _
      simp only [pollLoop]
      rw [if_neg (ne_next hk), hocc, hdue, if_neg (by simp), if_neg (Nat.not_le.mpr hcap),
        if_neg (by simp)]
      cases encodeData outLen r.packetAt with
      | error e =>
        have hr : Scanned r nowMs srttMs lv
            (r.scanned (r.cursor + ofNat 0) r.outstanding r.stale, some (.error e)) :=
          .refused (by omega) le_rfl
        rwa [hzero] at hr
      | ok _ =>
        have hr : Scanned r nowMs srttMs lv
            ((r.scanned (r.cursor + ofNat 0) r.outstanding r.stale).transmit nowMs srttMs lv,
              some (.ok (r.scanned (r.cursor + ofNat 0) r.outstanding r.stale).packetAt)) :=
          .emits (by omega) le_rfl hcap (by rw [hzero]; exact hocc)
        rwa [hzero] at hr
    · obtain ⟨outstanding, stale, hp, ho, ho'⟩ := pollLoop_passes nowMs srttMs lv outLen (k := k)
        (ne_next hk) fun hocc hcap =>
          Bool.eq_false_of_not_eq_true fun hdue => hstop ⟨hocc, hcap, hdue⟩
      have hle : r.outstanding ≤ outstanding := by
        rcases Nat.lt_or_ge r.outstanding OUTSTANDING_CAP with hcap | hcap
        · rw [ho' hcap]
          split_ifs <;> omega
        · rw [ho hcap]
      rw [hp]
      exact .pass hk hle (scanned_pollLoop nowMs srttMs lv outLen k _ (toNat_next_sub hk))

/-- **What a scan can do**, in any state. -/
theorem scanned_pollSend (r : SendRing n F) (nowMs srttMs : F) (levelIndex outLen : ℕ) :
    Scanned r nowMs srttMs (level F levelIndex) (r.pollSend nowMs srttMs levelIndex outLen) :=
  scanned_pollLoop nowMs srttMs (level F levelIndex) outLen _ r rfl

/-! ## Acknowledgements -/

/-- Fragments passed by the base are accounted for. -/
def accounted (r : SendRing n F) (s : UInt32) (k : ℕ) (i : Fin n) : SendSlot F :=
  { r.slot i with
    ackedAccounted := (r.slot i).ackedAccounted ||
      ((r.slot i).sent && decide (∃ j < k, i = slotIndex n (s + ofNat j))) }

theorem accounted_zero (r : SendRing n F) (s : UInt32) : r.accounted s 0 = r.slot := by
  funext i
  simp [accounted]

theorem exists_seq_succ {s : UInt32} {k : ℕ} {i : Fin n} :
    (∃ j < k + 1, i = slotIndex n (s + ofNat j)) ↔
      i = slotIndex n s ∨ ∃ j < k, i = slotIndex n (s + 1 + ofNat j) := by
  constructor
  · rintro ⟨j, hj, hi⟩
    cases j with
    | zero => exact .inl (hi.trans (congrArg _ (UInt32.add_zero s)))
    | succ j => exact .inr ⟨j, by omega, by rw [add_one_add]; exact hi⟩
  · rintro (hi | ⟨j, hj, hi⟩)
    · exact ⟨0, by omega, hi.trans (congrArg _ (UInt32.add_zero s).symm)⟩
    · exact ⟨j + 1, by omega, by rw [← add_one_add]; exact hi⟩

theorem gt_add {s : UInt32} {k : ℕ} (h0 : 0 < k) (hk : k < 2 ^ 31) :
    gt (s + ofNat k) s = true := by
  rw [gt_eq, sgt, decide_eq_true_iff, UInt32.add_comm, UInt32.add_sub_cancel,
    toNat_ofNat_lt (by omega)]
  exact ⟨h0, hk⟩

theorem accountLoop_eq : ∀ (k : ℕ) (s : UInt32) (r : SendRing n F), k < 2 ^ 31 →
    ∃ bytesAcked, accountLoop (s + ofNat k) k s r =
      { r with slot := r.accounted s k, bytesAcked }
  | 0, s, r, _ => by
    refine ⟨r.bytesAcked, ?_⟩
    rw [accounted_zero]
    rfl
  | k + 1, s, r, hk => by
    have hrest (r' : SendRing n F) (hslot : r'.accounted (s + 1) k = r.accounted s (k + 1))
        (hr : ∃ slot bytesAcked, r' = { r with slot, bytesAcked }) :
        ∃ bytesAcked, accountLoop (s + ofNat (k + 1)) k (s + 1) r' =
          { r with slot := r.accounted s (k + 1), bytesAcked } := by
      obtain ⟨slot, bytes, rfl⟩ := hr
      obtain ⟨bytesAcked, he⟩ := accountLoop_eq k (s + 1) { r with slot := slot, bytesAcked := bytes }
        (by omega)
      rw [add_one_add] at he
      exact ⟨bytesAcked, by rw [he, hslot]⟩
    simp only [accountLoop]
    rw [lt, gt_add (by omega) hk, if_pos rfl]
    -- the fragment at `s` is accounted for now, unless it was or was never sent
    split
    · next hnow =>
      rw [Bool.and_eq_true, Bool.not_eq_true'] at hnow
      refine hrest _ (funext fun i => ?_) ⟨_, _, rfl⟩
      simp only [accounted, exists_seq_succ, Function.update_apply]
      by_cases hi : i = slotIndex n s
      · simp [hi, hnow.1]
      · simp [hi]
    · next hnow =>
      refine hrest r (funext fun i => ?_) ⟨_, _, rfl⟩
      simp only [accounted, exists_seq_succ]
      by_cases hi : i = slotIndex n s
      · rw [← hi, Bool.and_eq_true, Bool.not_eq_true', not_and_or, Bool.not_eq_true,
          Bool.not_eq_false] at hnow
        rcases hnow with hs | ha
        · simp [hs]
        · simp [ha]
      · simp [hi]

/-- The fragment an acknowledgement names is in the window and has been sent. -/
def retires (r : SendRing n F) (ack : Ack) (i : Fin n) : Bool :=
  decide (ack.triggerChannel = r.channel) && !Seq.lt ack.triggerSeq r.base &&
    !Seq.ge ack.triggerSeq r.next && decide (i = slotIndex n ack.triggerSeq) && (r.slot i).sent

/-- **What an acknowledgement does**, in any state, where the base moves by `k`. -/
structure Acked (r : SendRing n F) (ack : Ack) (k : ℕ) (r' : SendRing n F) : Prop where
  lt : k < 2 ^ 31
  le : k ≤ (r.next - r.base).toNat
  within : 0 < k → (r.next - (r.base + ofNat k)).toNat < 2 ^ 31
  reported : (0 < k ∧ r.reportedCumulative ack = r.base + ofNat k) ∨
    (k = 0 ∧ ¬(Seq.gt (r.reportedCumulative ack) r.base = true ∧
      Seq.le (r.reportedCumulative ack) r.next = true))
  base : r'.base = r.base + ofNat k
  cursor : r'.cursor = if 0 < k ∧ Seq.lt r.cursor r'.base = true then r'.base else r.cursor
  acked : r'.acked = if 0 < k then satAdd 64 r.acked k else r.acked
  bytesAcked : r'.bytesAcked = (accountLoop (r.base + ofNat k) k r.base r).bytesAcked
  slot : ∀ i, r'.slot i = { r.accounted r.base k i with
    occupied := (r.slot i).occupied && !r.retires ack i }
  next : r'.next = r.next
  slotLen : r'.slotLen = r.slotLen
  fragmentCapacity : r'.fragmentCapacity = r.fragmentCapacity
  channel : r'.channel = r.channel
  outstanding : r'.outstanding = r.outstanding

theorem toNat_sub_between {b v x : UInt32} (h1 : (v - b).toNat < 2 ^ 31)
    (h2 : (x - v).toNat < 2 ^ 31) : (x - b).toNat = (x - v).toNat + (v - b).toNat := by
  have hsum : x - b = (x - v) + (v - b) := by
    simp only [UInt32.sub_eq_add_neg]
    rw [UInt32.add_assoc, ← UInt32.add_assoc (-v), UInt32.add_left_neg, UInt32.zero_add]
  rw [hsum, UInt32.toNat_add, Nat.mod_eq_of_lt (by omega)]

theorem ackCumulative_cases (r : SendRing n F) (ack : Ack) :
    (r.ackCumulative ack = r ∧ ¬(gt (r.reportedCumulative ack) r.base = true ∧
        le (r.reportedCumulative ack) r.next = true)) ∨
      ∃ k, 0 < k ∧ k < 2 ^ 31 ∧ k ≤ (r.next - r.base).toNat ∧
        (r.next - (r.base + ofNat k)).toNat < 2 ^ 31 ∧
        r.reportedCumulative ack = r.base + ofNat k ∧
        r.ackCumulative ack = r.advanceBase (r.base + ofNat k) := by
  unfold ackCumulative
  split
  · next h =>
    rw [Bool.and_eq_true] at h
    obtain ⟨h1, h2⟩ := h
    have hrep : r.reportedCumulative ack =
        r.base + ofNat (r.reportedCumulative ack - r.base).toNat := by
      rw [UInt32.ofNat_toNat, UInt32.add_comm, UInt32.sub_add_cancel]
    rw [gt_eq, sgt, decide_eq_true_iff] at h1
    rw [le, ge_eq, sge, decide_eq_true_iff] at h2
    refine .inr ⟨_, h1.1, h1.2, ?_, by rw [← hrep]; exact h2, hrep, by rw [← hrep]⟩
    rw [toNat_sub_between h1.2 h2]
    omega
  · next h => exact .inl ⟨rfl, by simpa using h⟩

theorem ackTrigger_slot (previous : UInt32) (r : SendRing n F) (ack : Ack) (nowMs : F) (i : Fin n) :
    (ackTrigger previous r ack nowMs).1.slot i = { r.slot i with
      occupied := (r.slot i).occupied && !(decide (ack.triggerChannel = r.channel) &&
        !lt ack.triggerSeq previous && !ge ack.triggerSeq r.next &&
        decide (i = slotIndex n ack.triggerSeq) && (r.slot i).sent) } := by
  unfold ackTrigger
  split
  · next h => simp [h]
  next h =>
    rw [not_not] at h
    split
    · next h2 =>
      rw [Bool.or_eq_true] at h2
      rcases h2 with h2 | h2 <;> simp [h2]
    next h2 =>
      rw [Bool.not_eq_true, Bool.or_eq_false_iff] at h2
      simp only
      split
      · next h3 =>
        by_cases hi : i = slotIndex n ack.triggerSeq
        · rw [Bool.or_eq_true, Bool.not_eq_true', Bool.not_eq_true', ← hi] at h3
          rcases h3 with h3 | h3
          · simp only [h3, Bool.false_and]
            rw [← h3]
          · rw [show ((decide (ack.triggerChannel = r.channel) && !lt ack.triggerSeq previous &&
              !ge ack.triggerSeq r.next && decide (i = slotIndex n ack.triggerSeq) &&
              (r.slot i).sent) = false) by rw [h3, Bool.and_false], Bool.not_false, Bool.and_true]
        · simp [hi]
      · next h3 =>
        rw [Bool.not_eq_true, Bool.or_eq_false_iff, Bool.not_eq_false', Bool.not_eq_false'] at h3
        by_cases hi : i = slotIndex n ack.triggerSeq
        · simp [hi, h, h2.1, h2.2, h3.2]
        · simp [hi]

theorem acked_onAck (r : SendRing n F) (ack : Ack) (nowMs : F) :
    ∃ k, Acked r ack k (r.onAck ack nowMs).1 := by
  obtain ⟨nackBelow, hn⟩ := ackNack_eq (r.ackCumulative ack) ack
  obtain ⟨slot, hs⟩ := ackTrigger_eq r.base ((r.ackCumulative ack).ackNack ack) ack nowMs
  have hslot := ackTrigger_slot r.base ((r.ackCumulative ack).ackNack ack) ack nowMs
  rw [hs, hn] at hslot
  have hout : (r.onAck ack nowMs).1 = { r.ackCumulative ack with slot, nackBelow } := by
    rw [onAck, hs, hn]
  rw [hout]
  obtain ⟨h, hno⟩ | ⟨k, h0, hk, hle, hin, hrep, h⟩ := r.ackCumulative_cases ack
  · rw [h] at hslot ⊢
    refine ⟨0, by omega, Nat.zero_le _, by simp, .inr ⟨rfl, hno⟩, (UInt32.add_zero _).symm,
      by simp, by simp, rfl,
      fun i => ?_, rfl, rfl, rfl, rfl, rfl⟩
    rw [accounted_zero]
    exact hslot i
  · obtain ⟨bytesAcked, ha⟩ := accountLoop_eq k r.base r hk
    have hdist : (r.base + ofNat k - r.base).toNat = k := by
      rw [UInt32.add_comm, UInt32.add_sub_cancel, toNat_ofNat_lt (by omega)]
    have hadv : r.advanceBase (r.base + ofNat k) =
        { r with
          slot := r.accounted r.base k
          bytesAcked
          acked := satAdd 64 r.acked k
          base := r.base + ofNat k
          cursor := if lt r.cursor (r.base + ofNat k) then r.base + ofNat k
            else r.cursor } := by
      simp only [advanceBase, hdist, ha]
    rw [h, hadv] at hslot ⊢
    refine ⟨k, hk, hle, fun _ => hin, .inl ⟨h0, hrep⟩, rfl, by simp only [h0, true_and],
      by simp only [h0, if_true], ?_,
      hslot, rfl, rfl, rfl, rfl, rfl⟩
    rw [ha]

/-! ## Queueing -/

/-- The capacity is one a constructor or a change of capacity accepts. -/
structure Sized (r : SendRing n F) : Prop where
  pos : 0 < r.fragmentCapacity
  le : r.fragmentCapacity ≤ r.slotLen
  lt : r.fragmentCapacity ≤ 2 ^ 16 - 1

/-- A slot as `enqueue` leaves it. -/
def queued (body : Str) (last : Bool) : SendSlot F :=
  { SendSlot.empty with body, occupied := true, last }

/-- Slots after `count` fragments have been written from the next sequence number on. -/
def Queued (r : SendRing n F) (count : ℕ) (slot : Fin n → SendSlot F) : Prop :=
  ∀ i, (slot i = r.slot i ∧ ∀ j < count, i ≠ slotIndex n (r.next + ofNat j)) ∨
    ∃ j < count, i = slotIndex n (r.next + ofNat j) ∧
      ∃ body last, slot i = queued body last ∧ body.length ≤ r.fragmentCapacity

theorem writeFragments_slot (m : Message) : ∀ (l : List ℕ) (r : SendRing n F),
    (writeFragments m l r).2 = none → ∃ slot, (writeFragments m l r).1 = { r with slot } ∧
      ∀ i, (slot i = r.slot i ∧ ∀ j ∈ l, i ≠ slotIndex n (r.next + ofNat j)) ∨
        ∃ j ∈ l, i = slotIndex n (r.next + ofNat j) ∧
          ∃ body last, slot i = queued body last ∧ body.length ≤ r.fragmentCapacity
  | [], r, _ => ⟨r.slot, rfl, fun i => .inl ⟨rfl, nofun⟩⟩
  | a :: l, r, h => by
    unfold writeFragments at h ⊢
    split at h
    · cases h
    next ha =>
      rw [if_neg ha]
      cases hf : m.fragment a r.fragmentCapacity r.slotLen with
      | none =>
        rw [hf] at h
        cases h
      | some out =>
        cases out with
        | error e =>
          rw [hf] at h
          cases h
        | ok fragment =>
          rw [hf] at h
          simp only at h ⊢
          split at h
          · cases h
          next hlen =>
            rw [if_neg hlen]
            obtain ⟨slot, he, hslot⟩ := writeFragments_slot m l _ h
            refine ⟨slot, he, fun i => ?_⟩
            rcases hslot i with ⟨hi, hne⟩ | ⟨j, hj, hi⟩
            · simp only [Function.update_apply] at hi
              split_ifs at hi with hia
              · exact .inr ⟨a, List.mem_cons_self, hia, fragment.body, fragment.last, hi,
                  m.length_fragment_body hf⟩
              · refine .inl ⟨hi, fun j hj => ?_⟩
                obtain rfl | hj := List.mem_cons.mp hj
                · exact hia
                · exact hne j hj
            · exact .inr ⟨j, List.mem_cons_of_mem _ hj, hi⟩

theorem enqueue_cases (hs : Sized r) (m : Message) :
    (r.windowFree < fragmentCount m.totalLen r.fragmentCapacity ∧
        r.enqueue m = (r, .error .bufferTooSmall)) ∨
      (fragmentCount m.totalLen r.fragmentCapacity ≤ r.windowFree ∧
        ∃ slot, Queued r (fragmentCount m.totalLen r.fragmentCapacity) slot ∧
          r.enqueue m = ({ r with
            slot, next := r.next + ofNat (fragmentCount m.totalLen r.fragmentCapacity) },
              .ok (fragmentCount m.totalLen r.fragmentCapacity))) := by
  unfold enqueue
  simp only
  split
  · next h => exact .inl ⟨h, rfl⟩
  next h =>
    have hle := Nat.le_of_not_lt h
    have hmax : r.windowFree ≤ 2 ^ 32 - 1 := by
      unfold windowFree
      omega
    have hok := writeFragments_ok m (List.range (fragmentCount m.totalLen r.fragmentCapacity)) r
      hs.pos hs.le hs.lt fun i hi => by
        rw [List.mem_range] at hi
        omega
    obtain ⟨slot, he, hslot⟩ := writeFragments_slot m _ r hok
    simp only [List.mem_range] at hslot
    refine .inr ⟨hle, slot, hslot, ?_⟩
    rw [show writeFragments m (List.range (fragmentCount m.totalLen r.fragmentCapacity)) r =
      ({ r with slot }, none) from Prod.ext he hok]
    simp only
    rw [if_neg (by omega)]

/-! ## Runs -/

/-- The calls on a ring. -/
inductive Use (F : Type)
  | enqueue (message : Message)
  | beginPass
  | pollSend (poll : Poll F)
  | onAck (ack : Ack) (nowMs : F)
  | setFragmentCapacity (capacity : ℕ)
  | discardPending

/-- The ring after a call. -/
def Use.run (r : SendRing n F) : Use F → SendRing n F
  | .enqueue message => (r.enqueue message).1
  | .beginPass => r.beginPass
  | .pollSend poll => (r.polled poll).1
  | .onAck ack nowMs => (r.onAck ack nowMs).1
  | .setFragmentCapacity capacity => (r.setFragmentCapacity capacity).1
  | .discardPending => r.discardPending.1

def uses (r : SendRing n F) : Machine (SendRing n F) (Use F) := ⟨r, fun s u => some (u.run s)⟩

theorem Sized.new {bodiesLen storageLen fragmentCapacity : ℕ} {channel : Channel}
    {r₀ : SendRing n F}
    (h : newWithCapacity n bodiesLen storageLen fragmentCapacity channel = .ok r₀) : Sized r₀ := by
  unfold newWithCapacity at h
  split_ifs at h with h1
  cases h
  rw [not_or, not_or, not_or, Nat.not_lt, Nat.not_lt] at h1
  exact ⟨Nat.pos_of_ne_zero h1.2.1, h1.2.2.1, h1.2.2.2⟩

theorem Sized.congr {r' : SendRing n F} (h : Sized r)
    (hc : r'.fragmentCapacity = r.fragmentCapacity) (hl : r'.slotLen = r.slotLen) : Sized r' := by
  obtain ⟨h1, h2, h3⟩ := h
  exact ⟨hc ▸ h1, by rw [hc, hl]; exact h2, hc ▸ h3⟩

theorem Sized.run (h : Sized r) (u : Use F) : Sized (u.run r) := by
  cases u with
  | enqueue m =>
    rcases enqueue_cases h m with ⟨-, he⟩ | ⟨-, slot, -, he⟩
    · exact h.congr (by simp only [Use.run, he]) (by simp only [Use.run, he])
    · exact h.congr (by simp only [Use.run, he]) (by simp only [Use.run, he])
  | beginPass | discardPending => exact h.congr rfl rfl
  | pollSend p =>
    have hs := r.sheds_pollSend p.nowMs p.srttMs p.levelIndex p.outLen
    exact h.congr hs.fragmentCapacity hs.slotLen
  | onAck ack nowMs =>
    have hs := r.sheds_onAck ack nowMs
    exact h.congr hs.fragmentCapacity hs.slotLen
  | setFragmentCapacity capacity =>
    simp only [Use.run, SendRing.setFragmentCapacity]
    split
    · next hcan =>
      obtain ⟨h1, h2, h3, -⟩ := of_decide_eq_true hcan
      exact ⟨h1, h2, h3⟩
    · exact h

/-! ## Positions -/

/-- The base, the cursor and the next number at their positions: the window is no wider than the ring
and than sequence numbers can tell. -/
structure Stands (r : SendRing n F) (b c x : ℕ) : Prop where
  base : r.base = ofNat b
  cursor : r.cursor = ofNat c
  next : r.next = ofNat x
  base_le : b ≤ c
  cursor_le : c ≤ x
  window : x ≤ b + min n (2 ^ 32 - 1)

section Stands

variable {b c x : ℕ}

theorem Stands.congr {r' : SendRing n F} (h : Stands r b c x) (hb : r'.base = r.base)
    (hc : r'.cursor = r.cursor) (hx : r'.next = r.next) : Stands r' b c x :=
  { h with base := hb.trans h.base, cursor := hc.trans h.cursor, next := hx.trans h.next }

theorem Stands.toNat_inFlight (h : Stands r b c x) : (r.next - r.base).toNat = x - b := by
  have h1 := h.base_le
  have h2 := h.cursor_le
  have h3 := h.window
  rw [h.next, h.base]
  exact toNat_sub_ofNat (by omega) (by omega)

theorem Stands.toNat_ahead (h : Stands r b c x) : (r.next - r.cursor).toNat = x - c := by
  have h1 := h.base_le
  have h2 := h.cursor_le
  have h3 := h.window
  rw [h.next, h.cursor]
  exact toNat_sub_ofNat (by omega) (by omega)

theorem Stands.base_add (h : Stands r b c x) (j : ℕ) :
    r.base + ofNat j = ofNat (b + j) := by
  rw [h.base, ofNat_add]

theorem Stands.next_add (h : Stands r b c x) (j : ℕ) :
    r.next + ofNat j = ofNat (x + j) := by
  rw [h.next, ofNat_add]

theorem Stands.fresh (storageLen fragmentCapacity : ℕ) (channel : Channel) :
    Stands (fresh storageLen fragmentCapacity channel : SendRing n F) 0 0 0 :=
  ⟨rfl, rfl, rfl, le_rfl, le_rfl, Nat.zero_le _⟩

section

variable (h : Stands r b c x)

include h

theorem Stands.queued {count : ℕ} (hcount : count ≤ r.windowFree) (slot : Fin n → SendSlot F) :
    Stands { r with slot, next := r.next + ofNat count } b c (x + count) := by
  have hflight := h.toNat_inFlight
  have hwin := h.window
  have h1 := h.base_le
  have h2 := h.cursor_le
  unfold windowFree inFlight at hcount
  exact ⟨h.base, h.cursor, h.next_add count, h1, by omega, by omega⟩

theorem Stands.beginPass : Stands r.beginPass b b x :=
  { h with cursor := h.base, base_le := le_rfl, cursor_le := h.base_le.trans h.cursor_le }

theorem Stands.discardPending : Stands r.discardPending.1 x x x :=
  ⟨h.next, h.next, h.next, le_rfl, le_rfl, Nat.le_add_right _ _⟩

theorem Stands.scanned {j : ℕ} (hj : c + j ≤ x) (outstanding stale : ℕ) :
    Stands (r.scanned (r.cursor + ofNat j) outstanding stale) b (c + j) x :=
  { h with
    cursor := by
      show r.cursor + ofNat j = _
      rw [h.cursor, ofNat_add]
    base_le := h.base_le.trans (Nat.le_add_right c j)
    cursor_le := hj }

theorem Stands.transmit (hc : c < x) (lv : Level F) :
    Stands (r.transmit nowMs srttMs lv) b (c + 1) x := by
  obtain ⟨stale, ht⟩ := r.transmit_eq nowMs srttMs lv
  rw [ht]
  refine ⟨h.base, ?_, h.next, h.base_le.trans (Nat.le_succ c), hc, h.window⟩
  show r.cursor + 1 = _
  rw [h.cursor, ofNat_succ]

theorem Stands.polled {lv : Level F}
    {out : SendRing n F × Option (Except Error Data)} (hs : Scanned r nowMs srttMs lv out) :
    ∃ c', Stands out.1 b c' x ∧ (out.2 ≠ none → c ≤ c') ∧
      ∀ d, out.2 = some (.ok d) → ∃ q, c ≤ q ∧ q < c' ∧ d.seq = ofNat q := by
  have hahead := h.toNat_ahead
  cases hs with
  | ended ho =>
    exact ⟨b, { h with cursor := h.base, base_le := le_rfl, cursor_le := h.base_le.trans h.cursor_le },
      absurd rfl, by simp⟩
  | @refused j outstanding stale error hj ho =>
    exact ⟨c + j, h.scanned (by omega) outstanding stale, fun _ => Nat.le_add_right c j, by simp⟩
  | @emits j outstanding stale hj ho hcap hocc =>
    have hat := h.scanned (j := j) (by omega) outstanding stale
    refine ⟨c + j + 1, hat.transmit (by omega) lv, fun _ => by omega, fun d hd => ?_⟩
    cases hd
    exact ⟨c + j, by omega, by omega, hat.cursor⟩

theorem Stands.acked {ack : Ack} {k : ℕ} {r' : SendRing n F}
    (ha : Acked r ack k r') : ∃ c', Stands r' (b + k) c' x ∧ c ≤ c' := by
  have hflight := h.toNat_inFlight
  have hk := ha.le
  have hk31 := ha.lt
  have h1 := h.base_le
  have h2 := h.cursor_le
  have h3 := h.window
  have hbase : r'.base = ofNat (b + k) := ha.base.trans (h.base_add k)
  have hcur := ha.cursor
  have hlt : lt r.cursor r'.base = decide (0 < (r'.base - r.cursor).toNat ∧
      (r'.base - r.cursor).toNat < 2 ^ 31) := by
    rw [lt, gt_eq, sgt]
  rw [hlt, hbase, h.cursor] at hcur
  split_ifs at hcur with hif
  · refine ⟨b + k, ⟨hbase, hcur, ha.next.trans h.next, le_rfl, by omega, by omega⟩, ?_⟩
    by_contra hlt
    have hin := ha.within hif.1
    rw [h.base_add, h.next, toNat_sub_ofNat (by omega) (by omega)] at hin
    rw [decide_eq_true_iff, toNat_sub_ofNat_of_lt (by omega) (by omega)] at hif
    omega
  · refine ⟨c, ⟨hbase, hcur, ha.next.trans h.next, ?_, h2, by omega⟩, le_rfl⟩
    by_contra hlt
    rw [decide_eq_true_iff, toNat_sub_ofNat (by omega) (by omega)] at hif
    omega

theorem Stands.run (hs : Sized r) (u : Use F) : ∃ b' c' x', Stands (u.run r) b' c' x' := by
  cases u with
  | enqueue m =>
    rcases enqueue_cases hs m with ⟨-, he⟩ | ⟨hle, slot, -, he⟩
    · exact ⟨b, c, x, by simpa only [Use.run, he] using h⟩
    · exact ⟨b, c, _, by simpa only [Use.run, he] using h.queued hle slot⟩
  | beginPass => exact ⟨b, b, x, h.beginPass⟩
  | pollSend p =>
    obtain ⟨c', hc, -⟩ := h.polled (r.scanned_pollSend p.nowMs p.srttMs p.levelIndex p.outLen)
    exact ⟨b, c', x, hc⟩
  | onAck ack nowMs =>
    obtain ⟨k, ha⟩ := r.acked_onAck ack nowMs
    obtain ⟨c', hc, -⟩ := h.acked ha
    exact ⟨b + k, c', x, hc⟩
  | setFragmentCapacity capacity =>
    refine ⟨b, c, x, ?_⟩
    simp only [Use.run, SendRing.setFragmentCapacity]
    split
    · exact h.congr rfl rfl rfl
    · exact h
  | discardPending => exact ⟨x, x, x, h.discardPending⟩

end

end Stands

end SendRing

end OpenStream.Lowlat
