import OpenStream.Lowlat.Retry

/-!
# Shrinking a drained ring

A send ring can take a smaller capacity when every fragment it holds fits. The test looks at every
slot, and a slot is let go only by the acknowledgement that names its fragment: one that the base
passes without that stays marked.

* **`drained_ring_shrinks`**
* **`drained_ring_stuck`**
-/

set_option linter.unusedSectionVars false

namespace OpenStream.Lowlat

open Bytes Runs

namespace SendRing

variable {n : ℕ} [NeZero n] {F : Type} [F64 F] {r : SendRing n F} {b c x : ℕ}

/-! ## The condition -/

/-- How far an acknowledgement moves the base. -/
def passed (r : SendRing n F) (ack : Ack) : ℕ :=
  if Seq.gt (r.reportedCumulative ack) r.base && Seq.le (r.reportedCumulative ack) r.next then
    (r.reportedCumulative ack - r.base).toNat
  else 0

/-- Of the fragments the base moves past, the acknowledgement names the one that is still held. -/
def RetiresPassed (r : SendRing n F) (ack : Ack) : Prop :=
  ∀ j < r.passed ack, (r.slot (slotOf n r.base j)).occupied = true →
    r.retires ack (slotOf n r.base j) = true

instance (r : SendRing n F) (ack : Ack) : Decidable (r.RetiresPassed ack) :=
  inferInstanceAs (Decidable (∀ j < r.passed ack, (r.slot (slotOf n r.base j)).occupied = true →
    r.retires ack (slotOf n r.base j) = true))

/-- No acknowledgement moves the base past a fragment it does not name. -/
def Clears (r : SendRing n F) : Use F → Prop
  | .onAck ack _ => r.RetiresPassed ack
  | _ => True

instance (r : SendRing n F) (u : Use F) : Decidable (r.Clears u) := by
  unfold Clears
  split <;> infer_instance

theorem Acked.eq_passed {ack : Ack} {k : ℕ} {r' : SendRing n F} (h : Acked r ack k r') :
    k = r.passed ack := by
  have hlt := h.lt
  unfold passed
  simp only [Bool.and_eq_true]
  obtain ⟨h0, hrep⟩ | ⟨h0, hno⟩ := h.reported
  · have hgt : Seq.gt (r.reportedCumulative ack) r.base = true := by
      rw [hrep]
      exact gt_add h0 hlt
    have hle : Seq.le (r.reportedCumulative ack) r.next = true := by
      rw [hrep, Seq.le, Seq.ge_eq, Serial.sge, decide_eq_true_iff]
      exact h.within h0
    rw [if_pos ⟨hgt, hle⟩, hrep, UInt32.add_comm, UInt32.add_sub_cancel,
      Serial.toNat_ofNat_lt (by omega)]
  · rw [if_neg hno]
    exact h0

/-! ## What is held is in the window -/

def Held (r : SendRing n F) (i : Fin n) : Prop := ∃ j < r.inFlight.toNat, i = slotOf n r.base j

theorem Stands.held_iff (h : Stands r b c x) {i : Fin n} :
    r.Held i ↔ ∃ p, b ≤ p ∧ p < x ∧ i = slotIndex n (UInt32.ofNat p) := by
  have hflight : r.inFlight.toNat = x - b := h.toNat_inFlight
  unfold Held
  constructor
  · rintro ⟨j, hj, rfl⟩
    exact ⟨b + j, by omega, by omega, congrArg (slotIndex n) (h.base_add j)⟩
  · rintro ⟨p, hbp, hpx, rfl⟩
    refine ⟨p - b, by omega, congrArg (slotIndex n) ?_⟩
    rw [seqAt, h.base_add, Nat.add_sub_cancel' hbp]

/-- A ring whose slots are held only for fragments in flight. -/
structure Tidy (r : SendRing n F) : Prop where
  sized : Sized r
  stands : ∃ b c x, Stands r b c x
  held : ∀ i, (r.slot i).occupied = true → r.Held i

theorem Tidy.enqueue (h : Tidy r) (m : Message) : Tidy (r.enqueue m).1 := by
  obtain ⟨b, c, x, hstands⟩ := h.stands
  obtain ⟨-, he⟩ | ⟨hle, slot, hslot, he⟩ := enqueue_cases h.sized m
  · rw [he]
    exact h
  rw [he]
  have hqueued := hstands.queued hle slot
  refine ⟨h.sized.congr rfl rfl, ⟨_, _, _, hqueued⟩, fun i hi => ?_⟩
  rw [hqueued.held_iff]
  obtain ⟨hkept, -⟩ | ⟨j, hj, hij, -⟩ := hslot i
  · have hi : (slot i).occupied = true := hi
    rw [hkept] at hi
    obtain ⟨p, hbp, hpx, hp⟩ := hstands.held_iff.mp (h.held i hi)
    exact ⟨p, hbp, by omega, hp⟩
  · have hbc := hstands.base_le
    have hcx := hstands.cursor_le
    refine ⟨x + j, by omega, by omega, ?_⟩
    rw [hij, hstands.next_add]

theorem Tidy.onAck (h : Tidy r) {ack : Ack} (nowMs : F) (hack : r.RetiresPassed ack) :
    Tidy (r.onAck ack nowMs).1 := by
  obtain ⟨b, c, x, hstands⟩ := h.stands
  obtain ⟨k, hk⟩ := r.acked_onAck ack nowMs
  obtain ⟨c', hstands', -⟩ := hstands.acked hk
  refine ⟨h.sized.congr hk.fragmentCapacity hk.slotLen, ⟨_, _, _, hstands'⟩, fun i hi => ?_⟩
  rw [hk.slot, Bool.and_eq_true, Bool.not_eq_true'] at hi
  obtain ⟨hocc, hkept⟩ := hi
  obtain ⟨p, hbp, hpx, rfl⟩ := hstands.held_iff.mp (h.held i hocc)
  refine hstands'.held_iff.mpr ⟨p, ?_, hpx, rfl⟩
  -- had the base passed the fragment, the acknowledgement would have let its slot go
  by_contra hlt
  have hslot : slotOf n r.base (p - b) = slotIndex n (UInt32.ofNat p) := by
    refine congrArg (slotIndex n) ?_
    rw [seqAt, hstands.base_add, Nat.add_sub_cancel' hbp]
  have hretires := hack (p - b) (by rw [← hk.eq_passed]; omega) (by rw [hslot]; exact hocc)
  rw [hslot, hkept] at hretires
  cases hretires

theorem Tidy.sheds (h : Tidy r) {r' : SendRing n F} (hs : Sheds r r') (hb : r'.base = r.base)
    (hstands : ∃ b c x, Stands r' b c x) : Tidy r' := by
  refine ⟨h.sized.congr hs.fragmentCapacity hs.slotLen, hstands, fun i hi => ?_⟩
  have hheld := h.held i (hs.held i hi).1
  rwa [Held, inFlight, ← hb, ← hs.next] at hheld

theorem Tidy.run (h : Tidy r) {u : Use F} (hu : r.Clears u) : Tidy (u.run r) := by
  obtain ⟨b, c, x, hstands⟩ := h.stands
  cases u with
  | enqueue m => exact h.enqueue m
  | beginPass => exact h.sheds (.of_slot rfl rfl rfl rfl) rfl ⟨_, _, _, hstands.beginPass⟩
  | pollSend p =>
    obtain ⟨c', hstands', -⟩ :=
      hstands.polled (r.scanned_pollSend p.nowMs p.srttMs p.levelIndex p.outLen)
    exact h.sheds (r.sheds_pollSend p.nowMs p.srttMs p.levelIndex p.outLen)
      (hstands'.base.trans hstands.base.symm) ⟨_, _, _, hstands'⟩
  | onAck ack nowMs => exact h.onAck nowMs hu
  | setFragmentCapacity capacity =>
    refine ⟨h.sized.run (.setFragmentCapacity capacity), hstands.run h.sized _, ?_⟩
    simp only [Use.run, SendRing.setFragmentCapacity]
    split
    · exact h.held
    · exact h.held
  | discardPending =>
    exact ⟨h.sized.congr rfl rfl, ⟨_, _, _, hstands.discardPending⟩,
      fun i hi => absurd hi Bool.false_ne_true⟩

/-- A ring nothing was queued on. -/
def Unused (r : SendRing n F) : Prop :=
  (0 < r.fragmentCapacity ∧ r.fragmentCapacity ≤ r.slotLen ∧ r.fragmentCapacity ≤ 2 ^ 16 - 1) ∧
    r.cursor = r.base ∧ r.next = r.base ∧ ∀ i, (r.slot i).occupied = false

instance (r : SendRing n F) : Decidable r.Unused := by
  unfold Unused
  infer_instance

theorem Unused.tidy (h : r.Unused) : Tidy r := by
  obtain ⟨⟨hpos, hle, hlt⟩, hcursor, hnext, hslot⟩ := h
  refine ⟨⟨hpos, hle, hlt⟩, ⟨r.base.toNat, r.base.toNat, r.base.toNat, ?_⟩, fun i hi => ?_⟩
  · have hbase : r.base = UInt32.ofNat r.base.toNat := (UInt32.ofNat_toNat).symm
    exact ⟨hbase, hcursor.trans hbase, hnext.trans hbase, le_rfl, le_rfl, Nat.le_add_right _ _⟩
  · rw [hslot] at hi
    cases hi

theorem Unused.new {bodiesLen storageLen fragmentCapacity : ℕ} {channel : Channel}
    (h : newWithCapacity n bodiesLen storageLen fragmentCapacity channel = .ok r) : r.Unused := by
  have hs := Sized.new h
  unfold newWithCapacity at h
  split_ifs at h
  cases h
  exact ⟨⟨hs.pos, hs.le, hs.lt⟩, rfl, rfl, fun _ => rfl⟩

theorem tidy_of_reach {start : SendRing n F} (hstart : start.Unused)
    (h : (uses start).ReachVia Clears r) : Tidy r := by
  refine Machine.ReachVia.invariant (I := Tidy) hstart.tidy (fun r u r' htidy hu hstep => ?_) h
  cases hstep
  exact htidy.run hu

theorem Tidy.canSet_iff (h : Tidy r) {capacity : ℕ} (hpos : 0 < capacity)
    (hle : capacity ≤ r.storageCapacity) (hlt : capacity ≤ 2 ^ 16 - 1) :
    r.canSetFragmentCapacity capacity = true ↔
      ∀ j < r.inFlight.toNat, (r.slot (slotOf n r.base j)).occupied = true →
        (r.slot (slotOf n r.base j)).body.length ≤ capacity := by
  rw [canSetFragmentCapacity, decide_eq_true_iff]
  constructor
  · rintro ⟨-, -, -, hall⟩ j -
    exact hall _
  · intro hall
    refine ⟨hpos, hle, hlt, fun i hi => ?_⟩
    obtain ⟨j, hj, rfl⟩ := h.held i hi
    exact hall j hj hi

theorem Tidy.canSet_of_drained (h : Tidy r) {capacity : ℕ} (hpos : 0 < capacity)
    (hle : capacity ≤ r.storageCapacity) (hlt : capacity ≤ 2 ^ 16 - 1) (h0 : r.inFlight = 0) :
    r.canSetFragmentCapacity capacity = true := by
  rw [h.canSet_iff hpos hle hlt, h0]
  intro j hj
  exact absurd hj (Nat.not_lt_zero j)

end SendRing

/-! ## Results -/

/-- A ring that calls led to in which no acknowledgement passed a fragment it did not name. -/
def SendChannel.Cleared {F : Type} [F64 F] (c : SendChannel F) : Prop :=
  ∃ start : SendRing c.slots F, start.Unused ∧ (SendRing.uses start).ReachVia SendRing.Clears c.ring

theorem blocked_by {n : ℕ} [NeZero n] {F : Type} [Double F] {s : Session n F}
    (hpath : FLOOR < s.pathDatagramSize) (hrings : ∀ c ring, s.send c = some ring →
      ring.Cleared ∧ Session.bodyOf FLOOR ≤ ring.ring.slotLen)
    (h : s.canRecoverVideoPathDatagramSize FLOOR = false) :
    ∃ c ring, c ≠ VIDEO_CHANNEL ∧ s.send c = some ring ∧ ∃ j < ring.ring.inFlight.toNat,
      (ring.ring.slot (slotOf _ ring.ring.base j)).occupied = true ∧
      Session.bodyOf FLOOR < (ring.ring.slot (slotOf _ ring.ring.base j)).body.length := by
  unfold Session.canRecoverVideoPathDatagramSize at h
  rw [if_neg (by rw [Bool.or_eq_true, decide_eq_true_iff, not_or]; exact ⟨by omega, by decide⟩),
    decide_eq_false_iff_not, not_forall] at h
  obtain ⟨c, hc⟩ := h
  cases hring : s.send c with
  | none => simp [hring] at hc
  | some ring =>
    obtain ⟨⟨start, hstart, hreach⟩, hlen⟩ := hrings c ring hring
    rw [hring, Option.all_some] at hc
    by_cases hvideo : c = VIDEO_CHANNEL
    · rw [if_pos hvideo] at hc
      exact absurd (decide_eq_true hlen) hc
    rw [if_neg hvideo] at hc
    by_contra hno
    -- with nothing too large in flight the ring would have taken the base size
    refine hc (((SendRing.tidy_of_reach hstart hreach).canSet_iff (by decide) hlen (by decide)).mpr ?_)
    intro j hj hocc
    by_contra hlarge
    exact hno ⟨c, ring, hvideo, hring, j, hj, hocc, Nat.lt_of_not_le hlarge⟩

open Endpoint SendRing in
/-- **A drained ring can shrink**, in a run of calls in which no acknowledgement moves the base past
a fragment that it does not name. -/
theorem drained_ring_shrinks {F : Type} [Double F] :
    (∀ {n : ℕ} [NeZero n] (bodiesLen storageLen fragmentCapacity : ℕ) (channel : Channel)
      (start r : SendRing n F),
      newWithCapacity n bodiesLen storageLen fragmentCapacity channel = .ok start →
      (uses start).ReachVia Clears r → ∀ capacity, 1 ≤ capacity →
      capacity ≤ min r.storageCapacity 65535 →
      (r.canSetFragmentCapacity capacity = true ↔
        ∀ j < r.inFlight.toNat, (r.slot (slotOf n r.base j)).occupied = true →
          (r.slot (slotOf n r.base j)).body.length ≤ capacity) ∧
      (r.inFlight = 0 → r.canSetFragmentCapacity capacity = true)) ∧
    ∀ {n : ℕ} [NeZero n] (hashes : Stun.Hashes) (conn : Conn F) (envelope : Envelope)
      (direction : Direction) (level : ℕ) (startMs : F) (e : Endpoint n F),
      (machine hashes (.new conn (.withDirection envelope direction level startMs))).ReachVia
        Leaves e →
      (∀ c ring, e.session.send c = some ring →
        ring.Cleared ∧ Session.bodyOf FLOOR ≤ ring.ring.slotLen) →
      ∀ nowMs, (e.recoverPathBlackHole nowMs).2 = .blocked →
      ∃ c ring, c ≠ VIDEO_CHANNEL ∧ e.session.send c = some ring ∧ ∃ j < ring.ring.inFlight.toNat,
        (ring.ring.slot (slotOf _ ring.ring.base j)).occupied = true ∧
        Session.bodyOf FLOOR < (ring.ring.slot (slotOf _ ring.ring.base j)).body.length := by
  constructor
  · intro n _ bodiesLen storageLen fragmentCapacity channel start r hnew h capacity hpos hle
    rw [le_min_iff] at hle
    have htidy := tidy_of_reach (Unused.new hnew) h
    exact ⟨htidy.canSet_iff hpos hle.1 hle.2, htidy.canSet_of_drained hpos hle.1 hle.2⟩
  · intro n _ hashes conn envelope direction level startMs e h hrings nowMs hblocked
    have hagrees := agrees_of_reach h
    have hcases := recovers hagrees.config nowMs
    generalize e.recoverPathBlackHole nowMs = result at hcases hblocked
    cases hcases with
    | notConfigured | unusable | recovered => cases hblocked
    | blocked hmtu hsize hcan =>
      next mtu =>
      have hfloor : FLOOR ≤ mtu.datagramSize :=
        (tuned_of_reach rfl (h.mono fun _ _ _ => trivial) mtu hmtu).floor
      have hpath : FLOOR < e.session.pathDatagramSize := by
        rw [hagrees.path mtu hmtu]
        omega
      exact blocked_by hpath hrings hcan

/-- The peer has everything below `upTo` of channel 0, and `seq` prompted it to say so. -/
def ackOf (upTo seq : UInt32) : Ack :=
  { kind := .ack, nack := false, triggerChannel := 0, triggerSeq := seq
    cumulative := fun _ => upTo, reported := CHANNEL_COUNT }

def twoSent : List (SendRing.Use Float) :=
  .enqueue ⟨[], List.replicate 12 7, by decide⟩ :: List.replicate 2 (.pollSend ⟨0, 100, 1, 64⟩)

theorem neZero_four : NeZero 4 := ⟨Nat.succ_ne_zero 3⟩

theorem short_fits : ([] : List UInt8).length + ([7] : List UInt8).length < 2 ^ 32 := by decide

def shortRing : SendChannel Float :=
  haveI := neZero_four
  (SendChannel.enqueue ⟨4, neZero_four, .fresh 1964 1244 0⟩ ⟨[], [7], short_fits⟩).1

theorem cleared_shortRing : shortRing.Cleared :=
  ⟨.fresh 1964 1244 0, by decide, .step (a := .enqueue ⟨[], [7], by decide⟩) .start trivial rfl⟩

open SendRing in
/-- Each fragment is acknowledged by name, and a short control message does not block a recovery. -/
theorem drained_ring_shrinks_runs :
    (∃ r : SendRing 4 Float, (uses (fresh 8 8 0)).ReachVia Clears r ∧ r.inFlight = 0 ∧
      r.acked = 2 ∧ r.canSetFragmentCapacity 4 = true) ∧
    ∃ e : Endpoint 1 Float, (Endpoint.machine plainHashes plainEndpoint).ReachVia Endpoint.Leaves e ∧
      e.pathMtu.map PathMtu.datagramSize = some 1280 ∧ e.session.send 0 = some shortRing ∧
      (e.recoverPathBlackHole 20).2 ≠ .blocked := by
  constructor
  · obtain ⟨r, hr, hflight, hacked, hlen⟩ := Machine.exists_reachVia
      (M := uses (fresh 8 8 0 : SendRing 4 Float)) Clears
      (twoSent ++ [.onAck (ackOf 1 0) 1, .onAck (ackOf 2 1) 2])
      (fun r => r.inFlight = 0 ∧ r.acked = 2 ∧ 4 ≤ r.storageCapacity) (by decide +kernel)
    exact ⟨r, hr, hflight, hacked, ((drained_ring_shrinks.1 32 8 8 0 (fresh 8 8 0) r rfl hr 4
      (by decide) (le_min hlen (by decide))).2 hflight)⟩
  · obtain ⟨e, he, hpath, hsize, hnone⟩ := Machine.exists_reachVia
      (M := Endpoint.machine plainHashes plainEndpoint) Endpoint.Leaves
      [.configurePathMtu (.defaultFor .direct) 0, .getOutput 0 MAX_DATAGRAM,
        .processInput (fromGuest (encodeProbeAck ⟨1, 1280⟩)) (neighbour 1) 10 MAX_DATAGRAM]
      (fun e => e.session.pathDatagramSize = 1280 ∧
        e.pathMtu.map PathMtu.datagramSize = some 1280 ∧ ∀ c, (e.session.send c).isNone = true)
      (by decide +kernel)
    have hsend : (e.session.attachSend 0 shortRing).1.send =
        Function.update e.session.send 0 (some shortRing) := by
      simp only [Session.attachSend, hpath]
      rfl
    have hreach : (Endpoint.machine plainHashes plainEndpoint).ReachVia Endpoint.Leaves
        { e with session := (e.session.attachSend 0 shortRing).1 } :=
      .step (a := .session (.attachSend 0 shortRing)) he (Or.inl rfl) rfl
    have hrings : ∀ c ring, (e.session.attachSend 0 shortRing).1.send c = some ring →
        ring = shortRing := by
      intro c ring hring
      rw [hsend] at hring
      by_cases hc : c = 0
      · rw [hc, Function.update_self] at hring
        exact (Option.some.inj hring).symm
      · rw [Function.update_of_ne hc, Option.isNone_iff_eq_none.mp (hnone c)] at hring
        cases hring
    refine ⟨_, hreach, hsize, by rw [hsend, Function.update_self], fun hblocked => ?_⟩
    obtain ⟨c, ring, -, hring, j, -, -, hlarge⟩ := drained_ring_shrinks.2 _ _ _ _ _ _ _ hreach
      (fun c ring hring => by
        rw [hrings c ring hring]
        exact ⟨cleared_shortRing, by decide⟩) 20 hblocked
    rw [hrings c ring hring] at hlarge
    have hshort : ∀ i, (shortRing.ring.slot i).body.length ≤ Session.bodyOf FLOOR := by
      decide +kernel
    exact absurd hlarge (Nat.not_lt.mpr (hshort _))

open SendRing in
/-- **One acknowledgement for two fragments leaves the first one's slot marked.** -/
theorem drained_ring_stuck : ∃ r : SendRing 4 Float, (uses (fresh 8 8 0)).Reach r ∧
    r.inFlight = 0 ∧ r.storageCapacity = 8 ∧ r.canSetFragmentCapacity 4 = false :=
  Machine.exists_reachVia (M := uses (fresh 8 8 0 : SendRing 4 Float)) (fun _ _ => True)
    (twoSent ++ [.onAck (ackOf 2 1) 1]) _ (by decide +kernel)

end OpenStream.Lowlat
