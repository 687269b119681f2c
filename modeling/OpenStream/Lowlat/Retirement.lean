import OpenStream.Lowlat.LinkInvariant

/-!
# A fragment is retired only when the receiver has it

The sender stops sending a fragment once it is below the base, or once an acknowledgement names it.
The session names the last datagram it saw whatever its ring did with it, and a keepalive, which
names nothing, is written as naming fragment 0 of channel 0.

* **`Link.retired_stored`**
* **`Link.lagging_reader_loses`**
-/

namespace OpenStream.Lowlat

open Bytes RecvHalf
open UInt32 (ofNat ofNat_toNat)

variable {n : ℕ} [NeZero n] {F : Type} [F64 F]

namespace Link

/-- The sender will never send fragment `q` again: it is below the base, or its slot in the window is
sent and no longer occupied. -/
def Retired (s : Link n F) (q : ℕ) : Prop :=
  q < s.log.length - s.sender.inFlight.toNat ∨
    (s.log.length - s.sender.inFlight.toNat ≤ q ∧ q < s.log.length ∧
      (s.sender.slot (slotIndex n (ofNat q))).retired = true)

def ring (p : Setup) (s : Link n F) : RecvRing n :=
  (s.receiver.recv p.channel).getD (RecvRing.fresh p.slotLen)

/-- What is asked of an action: a data packet reaches the receiver when its reader is less than a
ring behind it (nor more than half the sequence space, where comparisons turn around), and no
keepalive reaches the sender of channel 0 between the first transmission of fragment 0 and its
arrival. -/
def InReach (p : Setup) (s : Link n F) : Act F → Prop
  | .deliverData i => ∀ d ∈ s.dataWire[i]?,
    d.seq.toNat < (s.ring p).delivered.toNat + n ∧
      d.seq.toNat ≤ (s.ring p).delivered.toNat + 2 ^ 31
  | .deliverAck i _ => ∀ a ∈ s.ackWire[i]?, a.kind = .keepalive → p.channel = 0 →
    (s.sender.slot (slotIndex n 0)).sent = true → (s.ring p).cumulative ≠ 0
  | _ => True

instance (p : Setup) (s : Link n F) (a : Act F) : Decidable (InReach p s a) :=
  match a with
  | .deliverData i => inferInstanceAs (Decidable (∀ d ∈ s.dataWire[i]?, _))
  | .deliverAck i _ => inferInstanceAs (Decidable (∀ a ∈ s.ackWire[i]?, _))
  | .enqueue _ | .setFragmentCapacity _ | .beginPass | .pollSend .. | .otherData _ | .poll _
  | .getOutput .. | .takeMessage _ => isTrue trivial

instance (s : Link n F) (q : ℕ) : Decidable (s.Retired q) := inferInstanceAs (Decidable (_ ∨ _))

/-- What an acknowledgement names was accepted; a keepalive names nothing but `(0, 0)`. -/
def Names (p : Setup) (stored : List UInt32) (a : Ack) : Prop :=
  (a.kind = .ack → a.triggerChannel = p.channel → a.triggerSeq ∈ stored) ∧
    (a.kind = .keepalive → a.triggerChannel = 0 ∧ a.triggerSeq = 0)

structure TriggerInv (p : Setup) (s : Link n F) : Prop where
  trigger : s.receiver.ackDue = true → s.receiver.ackKind = .ack →
    s.receiver.trigger.1 = p.channel → s.receiver.trigger.2 ∈ s.stored
  acks : ∀ a ∈ s.ackWire, Names p s.stored a
  slots : ∀ q, s.sender.base.toNat ≤ q → q < s.log.length →
    (s.sender.slotAt q).retired = true → ofNat q ∈ s.stored

section

variable {p : Setup} {s s' : Link n F}

omit [NeZero n] [F64 F] in
theorem ring_eq {r : RecvRing n} (hr : s.receiver.recv p.channel = some r) : s.ring p = r := by
  rw [ring, hr]
  rfl

omit [F64 F] in
theorem Inv.length_le (h : Inv p s) {q : ℕ} {b : Str} (hb : s.log[q]? = some b) :
    b.length ≤ p.slotLen ∧ b.length < 2 ^ 16 := by
  have hmem := List.mem_of_getElem? hb
  rw [log, List.mem_flatMap] at hmem
  obtain ⟨m, hm, hf⟩ := hmem
  have := m.1.length_fragment_le b hf
  have := h.queued m hm
  omega

omit [F64 F] in
theorem Inv.receive_stored (h : Inv p s) (hlt : s.log.length < wrapLimit n) {d : Data}
    (hd : d ∈ s.dataWire) (hn : d.seq.toNat < (s.ring p).delivered.toNat + n)
    (hhalf : d.seq.toNat ≤ (s.ring p).delivered.toNat + 2 ^ 31) : d.seq ∈ (s.receive d).stored := by
  obtain ⟨hch, hbody⟩ := h.wire d hd
  obtain ⟨r, hr, hi⟩ := h.ring
  rw [ring_eq hr] at hn hhalf
  have hq := (List.getElem?_eq_some_iff.mp hbody).1
  have hlim := wrapLimit_le n
  have hacc : seqAccepted d.seq = true := by
    rw [seqAccepted, decide_eq_true_iff]
    rintro he
    rw [he] at hq
    have : SEQ_MAX.toNat = 2 ^ 32 - 1 := rfl
    omega
  obtain ⟨hl1, hl2⟩ := h.length_le hbody
  -- everything below the frontier was accepted
  have hold : d.seq.toNat < r.delivered.toNat → d.seq ∈ s.stored := by
    intro hlt'
    have := hi.holds.delivered_le
    obtain ⟨b, hb⟩ := hi.holds.below d.seq.toNat (by omega)
    have := hb.2
    rwa [ofNat_toNat] at this
  have hres : (r.store d.seq d.body).2 = .accepted ∨ d.seq ∈ s.stored := by
    unfold RecvRing.store
    split_ifs with h1 h2 h3 h4 h5
    · refine .inr (hold ?_)
      rw [Seq.lt, Seq.gt_eq, Serial.sgt, decide_eq_true_iff, Serial.toNat_sub] at h1
      have := r.delivered.toNat_lt
      split_ifs at h1 <;> omega
    · rcases RecvRing.distance_cases (by simpa using h1) with ⟨h6, h7⟩ | ⟨h6, h7⟩
      · omega
      · exact .inr (hold (by omega))
    · exact absurd hl1 (by rw [← hi.slotLen]; omega)
    · omega
    · rcases Nat.lt_or_ge d.seq.toNat r.delivered.toNat with h6 | h6
      · exact .inr (hold h6)
      · right
        have := (hi.holds.body _ h6 hn (by omega) h5).2
        rwa [ofNat_toNat] at this
    · exact .inl rfl
  rw [← hch] at hr
  unfold Link.receive
  rw [processData_of_ring hr hacc]
  rcases hres with hres | hres
  · simp only [hres, Inbound.accepted]
    exact List.mem_append_right _ List.mem_cons_self
  · exact List.mem_append_left _ hres

theorem Names.mono {stored stored' : List UInt32} {a : Ack} (h : Names p stored a)
    (hsub : stored ⊆ stored') : Names p stored' a :=
  ⟨fun h1 h2 => hsub (h.1 h1 h2), h.2⟩

omit [F64 F] in
theorem receive_stored_subset (s : Link n F) (d : Data) : s.stored ⊆ (s.receive d).stored :=
  List.subset_append_left _ _

/-! ## One action at a time -/

omit [F64 F] in
theorem processData_trigger (h : RecvHalf n F) (d : Data) :
    (h.processData d).1 = h ∨ (h.processData d).1.trigger = (d.channel, d.seq) := by
  unfold processData
  split_ifs
  · exact .inl rfl
  · right
    simp only
    cases h.recv d.channel <;> rfl

omit [F64 F] in
theorem Inv.ack_retires (h : Inv p s) (ht : TriggerInv p s) {a : Ack} (ha : a ∈ s.ackWire)
    (hkeep : a.kind = .keepalive → p.channel = 0 →
      (s.sender.slot (slotIndex n 0)).sent = true → (s.ring p).cumulative ≠ 0)
    {q : ℕ} (hc : a.triggerChannel = s.sender.channel) (hq : a.triggerSeq.toNat = q)
    (hsent : (s.sender.slotAt q).sent = true) : ofNat q ∈ s.stored := by
  rw [h.channel] at hc
  cases hk : a.kind with
  | ack =>
    rw [← hq, ofNat_toNat]
    exact (ht.acks a ha).1 hk hc
  | keepalive =>
    obtain ⟨h1, h2⟩ := (ht.acks a ha).2 hk
    obtain rfl : q = 0 := by rw [← hq, h2]; rfl
    obtain ⟨r, hr, hi⟩ := h.ring
    have hne := hkeep hk (hc.symm.trans h1) hsent
    rw [ring_eq hr] at hne
    have hpos : 0 < r.cumulative.toNat :=
      Nat.pos_of_ne_zero fun h0 => hne (UInt32.toNat_inj.mp h0)
    obtain ⟨b, hb⟩ := hi.holds.below 0 hpos
    exact hb.2

theorem TriggerInv.step (ht : TriggerInv p s) (h : Inv p s) {a : Act F}
    (hst : step p s a = some s') (hok : InReach p s a) (hlt : s'.log.length < wrapLimit n) :
    TriggerInv p s' := by
  have hlt₀ : s.log.length < wrapLimit n := lt_of_le_of_lt (step_log hst) hlt
  have hpoll : ∀ r' : SendRing n F, SendRing.Kept s.sender r' → ∀ q, r'.base.toNat ≤ q →
      q < s.log.length → (r'.slotAt q).retired = true → ofNat q ∈ s.stored :=
    fun r' hk q hq1 hq2 hr => ht.slots q (hk.base ▸ hq1) hq2 ((hk.retired _).symm.trans hr)
  cases moves_of_step hst with
  | @queued m k hk =>
    rcases h.sender.enqueue m with ⟨-, -, e, he⟩ | ⟨-, henq⟩
    · rw [he] at hk
      cases hk
    have henq' := henq (by
      have hl := hlt.trans_le (wrapLimit_le n)
      rwa [log_of_queued rfl, List.length_append, m.length_fragments] at hl)
    refine ⟨ht.trigger, ht.acks, fun q hq1 hq2 hr => ?_⟩
    rw [log_of_queued rfl] at hq2
    change (s.sender.enqueue m).1.base.toNat ≤ q at hq1
    rw [henq'.base] at hq1
    rcases Nat.lt_or_ge q s.log.length with hq | hq
    · rw [henq'.old q hq1 hq] at hr
      exact ht.slots q hq1 hq hr
    · -- a fragment just queued is held
      have := (henq'.new q hq (by rwa [henq'.holds.next_eq])).1
      rw [SendSlot.retired, this, Bool.not_true, Bool.and_false] at hr
      cases hr
  | @refused m e he =>
    rcases h.sender.enqueue m with ⟨-, hs, -⟩ | ⟨⟨k, hk⟩, -⟩
    · rw [hs]
      exact ht
    · rw [hk] at he
      cases he
  | capacity hc =>
    refine ⟨ht.trigger, ht.acks, ?_⟩
    show ∀ q, (SendRing.setFragmentCapacity _ _).1.base.toNat ≤ q → _
    unfold SendRing.setFragmentCapacity
    split_ifs <;> exact ht.slots
  | pass => exact { ht with }
  | @emitted nowMs srttMs levelIndex outLen d hd | @scanned nowMs srttMs levelIndex outLen =>
    exact ⟨ht.trigger, ht.acks, hpoll _ (h.sender.pollSend nowMs srttMs levelIndex outLen).1.kept⟩
  | @acked i a nowMs hi =>
    have ha := List.mem_of_getElem? hi
    refine ⟨ht.trigger, ht.acks, fun q hq1 hq2 hr => ?_⟩
    rcases Nat.lt_or_ge q s.sender.base.toNat with hq | hq
    · obtain ⟨b, hb⟩ := h.base q hq
      exact hb.2
    · rcases (h.sender.onAck a nowMs).retired q hq1 hq2 hr with hold | ⟨hc, hseq, hsent⟩
      · exact ht.slots q hq hq2 hold
      · exact h.ack_retires ht ha (hok a hi) hc hseq hsent
  | @received i d hi =>
    obtain ⟨h1, h2⟩ := hok d hi
    have hd := List.mem_of_getElem? hi
    have hstored := h.receive_stored hlt₀ hd h1 h2
    refine ⟨?_, ?_, ?_⟩
    · intro h3 h4 h5
      rcases processData_trigger s.receiver d with he | he
      · change (s.receiver.processData d).1.ackDue = true at h3
        change (s.receiver.processData d).1.ackKind = .ack at h4
        change (s.receiver.processData d).1.trigger.1 = p.channel at h5
        show (s.receiver.processData d).1.trigger.2 ∈ _
        rw [he] at h3 h4 h5 ⊢
        exact receive_stored_subset s d (ht.trigger h3 h4 h5)
      · show (s.receiver.processData d).1.trigger.2 ∈ _
        rw [he]
        exact hstored
    · intro a ha
      exact (ht.acks a ha).mono (receive_stored_subset s d)
    · intro q hq1 hq2 hr
      exact receive_stored_subset s d (ht.slots q hq1 hq2 hr)
  | @other d hd =>
    refine ⟨fun h3 h4 h5 => ?_, ht.acks, ht.slots⟩
    rcases processData_trigger s.receiver d with he | he
    · simp only [he] at h3 h4 h5 ⊢
      exact ht.trigger h3 h4 h5
    · simp only [he] at h5
      exact absurd h5 hd
  | polled =>
    refine ⟨?_, ht.acks, ht.slots⟩
    simp only [poll]
    split_ifs
    · intro _ h4
      cases h4
    · exact ht.trigger
  | @answered nowMs sealed a ha =>
    unfold getOutput at ha ⊢
    split_ifs at ha ⊢ with hdue
    cases ha
    rw [Bool.and_eq_true] at hdue
    refine ⟨(fun h3 => by cases h3), fun a' ha' => ?_, ht.slots⟩
    rcases List.mem_append.mp ha' with ha' | ha'
    · exact ht.acks a' ha'
    · rw [List.mem_singleton.mp ha']
      constructor
      · intro hk hc
        have hk' : s.receiver.ackKind = .ack := hk
        simp only [RecvHalf.ack, hk', reduceCtorEq, if_false] at hc ⊢
        exact ht.trigger hdue.1 hk' hc
      · intro hk
        have hk' : s.receiver.ackKind = .keepalive := hk
        simp only [RecvHalf.ack, hk', if_true]
        exact ⟨trivial, trivial⟩
  | silent =>
    refine ⟨?_, ht.acks, ht.slots⟩
    simp only [getOutput]
    split_ifs
    · intro h3
      cases h3
    · exact ht.trigger
  | took hb | waited hb =>
    refine ⟨?_, ht.acks, ht.slots⟩
    simp only [takeMessage]
    cases s.receiver.recv p.channel <;> exact ht.trigger

/-! ## Runs -/

theorem trigger_of_reach {others : Channel → Option (RecvRing n)} {nowMs : F}
    (h : (link p others nowMs).ReachVia (InReach p) s) :
    s.log.length < wrapLimit n → TriggerInv p s := by
  induction h with
  | start =>
    intro _
    exact ⟨(fun h3 => by cases h3), (fun a ha => by cases ha),
      fun q _ hq => absurd hq (Nat.not_lt_zero q)⟩
  | step hr hok hst ih =>
    intro hlt
    have hlt₀ := lt_of_le_of_lt (step_log hst) hlt
    exact (ih hlt₀).step (inv_of_reach hr hlt₀) hst hok hlt

/-- **In a run in reach, every fragment the sender will never send again was accepted by the
receiver's ring.** -/
theorem retired_stored {others : Channel → Option (RecvRing n)} {nowMs : F}
    (h : (link p others nowMs).ReachVia (InReach p) s) (hlt : s.log.length < wrapLimit n) {q : ℕ}
    (hq : s.Retired q) : ofNat q ∈ s.stored := by
  have hi := inv_of_reach h hlt
  have hnext := hi.sender.next_eq
  have hbn := hi.sender.base_le.trans hi.sender.cursor_le
  have hbase : s.log.length - s.sender.inFlight.toNat = s.sender.base.toNat := by
    rw [SendRing.inFlight, Serial.toNat_sub, if_pos hbn]
    omega
  have hlim := wrapLimit_le n
  rw [Retired, hbase] at hq
  rcases hq with hq | ⟨h1, h2, h3⟩
  · obtain ⟨b, hb⟩ := hi.base q hq
    exact hb.2
  · refine (trigger_of_reach h hlt).slots q h1 h2 ?_
    rwa [slotIndex, Serial.toNat_ofNat_lt (by omega)] at h3

end

/-! ## Runs that do and do not stay in reach -/

section Runs

/-- Queue a message, send it, let it arrive and be acknowledged: the `i`-th round trip of a run. -/
def roundTrip (i : ℕ) : List (Act ℚ) :=
  [.enqueue .empty, .beginPass, .pollSend 0 0 1 64, .deliverData i, .getOutput 0 true,
    .deliverAck i 0]

theorem retired_stored_roundTrip : ∃ s, (link (n := 1) .small (fun _ => none) (0 : ℚ)).ReachVia
    (InReach .small) s ∧ s.log.length < wrapLimit 1 ∧ s.Retired 0 ∧ ofNat 0 ∈ s.stored := by
  obtain ⟨s, h, hlt, hq⟩ := (link (n := 1) .small (fun _ => none) (0 : ℚ)).exists_reachVia
    (InReach .small) (roundTrip 0) (fun s => s.log.length < wrapLimit 1 ∧ s.Retired 0)
    (by decide +kernel)
  exact ⟨s, h, hlt, hq, retired_stored h hlt hq⟩

/-- **A lagging reader loses a fragment.** The first message is stored and not taken; the second
finds the ring full and is dropped, but its acknowledgement names it and the sender lets it go. -/
theorem lagging_reader_loses : ∃ s, (link (n := 1) .small (fun _ => none) (0 : ℚ)).Reach s ∧
    s.log.length < wrapLimit 1 ∧ s.Retired 1 ∧ ofNat 1 ∉ s.stored :=
  (link (n := 1) .small (fun _ => none) (0 : ℚ)).exists_reachVia (fun _ _ => True)
    (roundTrip 0 ++ roundTrip 1) _ (by decide +kernel)

-- a keepalive that crosses the first packet of channel 0, lost on the way, retires it
example : ∃ s, (link (n := 1) { Setup.small with channel := 0 } (fun _ => none) (0 : ℚ)).Reach s ∧
    s.Retired 0 ∧ ofNat 0 ∉ s.stored :=
  (link (n := 1) { Setup.small with channel := 0 } (fun _ => none) (0 : ℚ)).exists_reachVia
    (fun _ _ => True)
    [.enqueue .empty, .pollSend 0 0 1 64, .poll 30, .getOutput 30 true, .deliverAck 0 30]
    (fun s => s.Retired 0 ∧ ofNat 0 ∉ s.stored) (by decide +kernel)

end Runs

end Link

end OpenStream.Lowlat
