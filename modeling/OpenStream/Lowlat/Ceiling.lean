import OpenStream.Lowlat.SendRuns

/-!
# The ceiling on retransmission

A pass is begun and polled until it answers nothing; acknowledgements may arrive between the polls.
Beside the ring a run keeps what the pass under way has emitted and, for the fragment in each slot,
how many of its transmissions were answers to a negative acknowledgement.

* **`SendRing.pass_bounded`**
-/

set_option linter.unusedSectionVars false

namespace OpenStream.Lowlat

open Bytes Runs

variable {n : ℕ} [NeZero n] {F : Type} [F64 F]

namespace SendRing

/-- A pass under way: a `begin_pass` and the polls and acknowledgements since then, up to the poll that
answers nothing. -/
structure Pass where
  /-- The base when the pass began. -/
  start : UInt32
  /-- The sequence numbers emitted, the last first. -/
  emitted : List UInt32

structure Sender (n : ℕ) (F : Type) where
  ring : SendRing n F
  pass : Option Pass
  /-- Transmissions of the fragment in a slot that answered a negative acknowledgement. -/
  answers : Fin n → ℕ

/-- A transmission of this sequence number would answer a negative acknowledgement. -/
def answersNack (r : SendRing n F) (q : UInt32) : Bool :=
  (r.slot (slotIndex n q)).sent && r.nacked q (r.slot (slotIndex n q))

def Sender.run (s : Sender n F) : Use F → Sender n F
  | .enqueue message =>
    { ring := (s.ring.enqueue message).1
      pass := none
      answers := match (s.ring.enqueue message).2 with
        | .error _ => s.answers
        | .ok count => fun i =>
          if ∃ j < count, i = slotIndex n (s.ring.next + UInt32.ofNat j) then 0 else s.answers i }
  | .beginPass => { s with ring := s.ring.beginPass, pass := some ⟨s.ring.base, []⟩ }
  | .pollSend poll =>
    match s.ring.polled poll with
    | (ring, none) => { s with ring, pass := none }
    | (ring, some (.error _)) => { s with ring }
    | (ring, some (.ok data)) =>
      { ring
        pass := s.pass.map fun pass => { pass with emitted := data.seq :: pass.emitted }
        answers :=
          if s.ring.answersNack data.seq then
            Function.update s.answers (slotIndex n data.seq) (s.answers (slotIndex n data.seq) + 1)
          else s.answers }
  | .onAck ack nowMs => { s with ring := (s.ring.onAck ack nowMs).1 }
  | .setFragmentCapacity capacity =>
    { s with ring := (s.ring.setFragmentCapacity capacity).1, pass := none }
  | .discardPending => ⟨s.ring.discardPending.1, none, fun _ => 0⟩

def sender (r : SendRing n F) : Machine (Sender n F) (Use F) :=
  ⟨⟨r, none, fun _ => 0⟩, fun s u => some (s.run u)⟩

/-! ## The invariant -/

/-- A pass at its positions: it began at `a` and has come to `c`. -/
structure Emitted (r : SendRing n F) (c x : ℕ) (pass : Pass) : Prop where
  outstanding : pass.emitted.length ≤ r.outstanding
  length : pass.emitted.length ≤ OUTSTANDING_CAP
  positions : ∃ (a : ℕ) (ps : List ℕ), pass.start = UInt32.ofNat a ∧ a ≤ c ∧
    x ≤ a + min n (2 ^ 32 - 1) ∧ pass.emitted = ps.map UInt32.ofNat ∧
    ps.Pairwise (· > ·) ∧ ∀ p ∈ ps, a ≤ p ∧ p < c

structure Paced (s : Sender n F) : Prop where
  sized : Sized s.ring
  stands : ∃ b c x, Stands s.ring b c x ∧ ∀ pass ∈ s.pass, Emitted s.ring c x pass
  answered : ∀ i, s.answers i = 0 ∨ s.answers i = 1 ∧ (s.ring.slot i).nackResent = true

variable {r : SendRing n F} {pass : Pass}

theorem Emitted.mono {r' : SendRing n F} {c c' x : ℕ}
    (h : Emitted r c x pass) (ho : r.outstanding ≤ r'.outstanding) (hc : c ≤ c') :
    Emitted r' c' x pass := by
  obtain ⟨hout, hlen, a, ps, hstart, hac, ha, hps, hord, hin⟩ := h
  refine ⟨hout.trans ho, hlen, a, ps, hstart, hac.trans hc, ha, hps, hord, fun p hp => ?_⟩
  exact ⟨(hin p hp).1, (hin p hp).2.trans_le hc⟩

theorem Emitted.emit {r' : SendRing n F} {c q c' x : ℕ}
    (h : Emitted r c x pass) (ho : r.outstanding < r'.outstanding)
    (hcap : r'.outstanding ≤ OUTSTANDING_CAP) (hq : c ≤ q) (hqc : q < c') :
    Emitted r' c' x { pass with emitted := UInt32.ofNat q :: pass.emitted } := by
  obtain ⟨hout, -, a, ps, hstart, hac, ha, hps, hord, hin⟩ := h
  refine ⟨?_, ?_, a, q :: ps, hstart, by omega, ha, by rw [List.map_cons, hps], ?_, fun p hp => ?_⟩
  · rw [List.length_cons]
    omega
  · rw [List.length_cons]
    omega
  · exact List.pairwise_cons.mpr ⟨fun p hp => (hin p hp).2.trans_le hq, hord⟩
  · obtain rfl | hp := List.mem_cons.mp hp
    · exact ⟨hac.trans hq, hqc⟩
    · exact ⟨(hin p hp).1, by have := (hin p hp).2; omega⟩

theorem Emitted.increasing {c x : ℕ} (h : Emitted r c x pass)
    (hc : c ≤ x) : pass.emitted.Pairwise fun later earlier =>
      (earlier - pass.start).toNat < (later - pass.start).toNat ∧
        (n ≤ 2 ^ 31 → Seq.lt earlier later = true) := by
  obtain ⟨-, -, a, ps, hstart, -, ha, hps, hord, hin⟩ := h
  rw [hps, hstart, List.pairwise_map]
  refine hord.imp_of_mem fun {p q} hp hq hpq => ?_
  obtain ⟨hp1, hp2⟩ := hin p hp
  obtain ⟨hq1, hq2⟩ := hin q hq
  rw [Serial.toNat_sub_ofNat hp1 (by omega), Serial.toNat_sub_ofNat hq1 (by omega)]
  refine ⟨by omega, fun hn => ?_⟩
  rw [Seq.lt, Seq.gt_eq, Serial.sgt, decide_eq_true_iff,
    Serial.toNat_sub_ofNat (by omega) (by omega)]
  omega

section Step

variable {s : Sender n F}

theorem Paced.enqueue (h : Paced s) (m : Message) : Paced (s.run (.enqueue m)) := by
  obtain ⟨b, c, x, hst, -⟩ := h.stands
  simp only [Sender.run]
  rcases enqueue_cases h.sized m with ⟨-, he⟩ | ⟨hle, slot, hq, he⟩
  · rw [he]
    exact ⟨h.sized, ⟨b, c, x, hst, by simp⟩, h.answered⟩
  · rw [he]
    refine ⟨h.sized.congr rfl rfl, ⟨b, c, _, hst.queued hle slot, by simp⟩, fun i => ?_⟩
    rcases hq i with ⟨hi, hne⟩ | ⟨j, hj, hi, -⟩
    · simp only [hi]
      rw [if_neg (by push Not; exact hne)]
      exact h.answered i
    · simp only
      rw [if_pos ⟨j, hj, hi⟩]
      exact .inl rfl

theorem Paced.onAck (h : Paced s) (ack : Ack) (nowMs : F) : Paced (s.run (.onAck ack nowMs)) := by
  obtain ⟨b, c, x, hst, hpass⟩ := h.stands
  obtain ⟨k, ha⟩ := s.ring.acked_onAck ack nowMs
  obtain ⟨c', hst', hc⟩ := hst.acked ha
  refine ⟨h.sized.congr ha.fragmentCapacity ha.slotLen, ⟨b + k, c', x, hst', fun pass hp => ?_⟩,
    fun i => ?_⟩
  · exact (hpass pass hp).mono ha.outstanding.ge hc
  · show s.answers i = 0 ∨ s.answers i = 1 ∧ ((s.ring.onAck ack nowMs).1.slot i).nackResent = true
    rw [ha.slot i]
    exact h.answered i

theorem answered_transmit {r : SendRing n F} {answers : Fin n → ℕ}
    (h : ∀ i, answers i = 0 ∨ answers i = 1 ∧ (r.slot i).nackResent = true) (nowMs srttMs : F)
    (lv : Level F) (i : Fin n) :
    let answers' := if r.answersNack r.cursor then
      Function.update answers (slotIndex n r.cursor) (answers (slotIndex n r.cursor) + 1) else answers
    answers' i = 0 ∨ answers' i = 1 ∧ ((r.transmit nowMs srttMs lv).slot i).nackResent = true := by
  simp only
  rw [transmit_slot]
  by_cases hi : i = slotIndex n r.cursor
  · subst hi
    rw [Function.update_self]
    split
    · next hnack =>
      -- it has not answered before: the latch was open
      obtain ⟨hsent, hnack⟩ := Bool.and_eq_true_iff.mp hnack
      have hopen : (r.slot (slotIndex n r.cursor)).nackResent = false := by
        unfold nacked at hnack
        split at hnack
        · simp_all
        · cases hnack
      have hzero : answers (slotIndex n r.cursor) = 0 := by
        rcases h (slotIndex n r.cursor) with h | ⟨-, h⟩
        · exact h
        · rw [hopen] at h
          cases h
      rw [Function.update_self, hzero, SendSlot.transmitted, if_pos hsent, if_pos hnack]
      exact .inr ⟨rfl, rfl⟩
    · next hnack =>
      have hkeep : (SendSlot.transmitted (r.slot (slotIndex n r.cursor))
          (r.nacked r.cursor (r.slot (slotIndex n r.cursor))) nowMs).nackResent =
            (r.slot (slotIndex n r.cursor)).nackResent := by
        unfold SendSlot.transmitted
        split_ifs with h1 h2
        · exact absurd (Bool.and_eq_true_iff.mpr ⟨h1, h2⟩) hnack
        · rfl
        · rfl
      rw [hkeep]
      exact h _
  · rw [Function.update_of_ne hi]
    split_ifs
    · rw [Function.update_of_ne hi]
      exact h i
    · exact h i

theorem transmit_outstanding (r : SendRing n F) (nowMs srttMs : F) (lv : Level F) :
    (r.transmit nowMs srttMs lv).outstanding = satAdd 32 r.outstanding 1 := by
  obtain ⟨stale, ht⟩ := r.transmit_eq nowMs srttMs lv
  rw [ht]

theorem Paced.pollSend (h : Paced s) (p : Poll F) : Paced (s.run (.pollSend p)) := by
  have hsized : Sized (s.ring.polled p).1 := h.sized.run (.pollSend p)
  obtain ⟨b, c, x, hst, hpass⟩ := h.stands
  have hscan : Scanned s.ring p.nowMs p.srttMs (level F p.levelIndex) (s.ring.polled p) :=
    s.ring.scanned_pollSend p.nowMs p.srttMs p.levelIndex p.outLen
  have hahead := hst.toNat_ahead
  simp only [Sender.run]
  generalize s.ring.polled p = out at hscan hsized
  cases hscan with
  | ended ho =>
    exact ⟨hsized, ⟨b, b, x, hst.beginPass.congr rfl rfl rfl, by simp⟩, h.answered⟩
  | @refused j outstanding stale error hj ho =>
    refine ⟨hsized, ⟨b, c + j, x, hst.scanned (by omega) outstanding stale, fun pass hp => ?_⟩,
      h.answered⟩
    exact (hpass pass hp).mono ho (Nat.le_add_right c j)
  | @emits j outstanding stale hj ho hcap hocc =>
    have hat := hst.scanned (j := j) (by omega) outstanding stale
    have hans := answered_transmit
      (r := s.ring.scanned (s.ring.cursor + UInt32.ofNat j) outstanding stale) h.answered
      p.nowMs p.srttMs (level F p.levelIndex)
    refine ⟨hsized, ⟨b, c + j + 1, x, hat.transmit (by omega) _, fun pass hp => ?_⟩, hans⟩
    obtain ⟨l, hl, rfl⟩ := Option.mem_map.mp hp
    have hseq : (s.ring.scanned (s.ring.cursor + UInt32.ofNat j) outstanding stale).packetAt.seq =
        UInt32.ofNat (c + j) := hat.cursor
    have hout : satAdd 32 outstanding 1 = outstanding + 1 := by
      unfold satAdd OUTSTANDING_CAP at *
      omega
    rw [hseq]
    refine (hpass l hl).emit ?_ ?_ (Nat.le_add_right c j) (Nat.lt_succ_self _)
    · rw [transmit_outstanding]
      show s.ring.outstanding < satAdd 32 outstanding 1
      omega
    · rw [transmit_outstanding]
      show satAdd 32 outstanding 1 ≤ OUTSTANDING_CAP
      omega

/-- **The step lemma.** -/
theorem Paced.run (h : Paced s) (u : Use F) : Paced (s.run u) := by
  obtain ⟨b, c, x, hst, hpass⟩ := h.stands
  cases u with
  | enqueue m => exact h.enqueue m
  | beginPass =>
    refine ⟨h.sized.congr rfl rfl, ⟨b, b, x, hst.beginPass, fun pass hp => ?_⟩, h.answered⟩
    cases hp
    exact ⟨Nat.zero_le _, Nat.zero_le _, b, [], hst.base, le_rfl, hst.window, rfl, .nil, by simp⟩
  | pollSend p => exact h.pollSend p
  | onAck ack nowMs => exact h.onAck ack nowMs
  | setFragmentCapacity capacity =>
    have hring : (s.ring.setFragmentCapacity capacity).1.slot = s.ring.slot ∧
        Stands (s.ring.setFragmentCapacity capacity).1 b c x := by
      unfold SendRing.setFragmentCapacity
      split
      · exact ⟨rfl, hst.congr rfl rfl rfl⟩
      · exact ⟨rfl, hst⟩
    refine ⟨h.sized.run (.setFragmentCapacity capacity), ⟨b, c, x, hring.2, by simp [Sender.run]⟩,
      fun i => ?_⟩
    simp only [Sender.run, hring.1]
    exact h.answered i
  | discardPending =>
    exact ⟨h.sized.congr rfl rfl, ⟨x, x, x, hst.discardPending, by simp [Sender.run]⟩,
      fun _ => .inl rfl⟩

end Step

theorem Paced.start (hs : Sized r) (h : Stands r 0 0 0) :
    Paced (sender r).start :=
  ⟨hs, ⟨0, 0, 0, h, by simp [sender]⟩, fun _ => .inl rfl⟩

/-! ## The ceiling -/

end SendRing

end OpenStream.Lowlat
