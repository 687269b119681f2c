import OpenStream.Lowlat.Delivery

/-!
# Drain passes of the send ring

A pass is driven until `poll_send` answers nothing. A fragment the encoder refuses is answered with
its error and the scan stays on it, so that one refusal ends every later pass too.

* **`SendRing.never_jams`**
* **`SendRing.jams`**
-/

namespace OpenStream.Lowlat

open Bytes Runs
open UInt32 (ofNat toNat_inj)

variable {n : ℕ} [NeZero n] {F : Type} [F64 F]

namespace SendRing

/-- The arguments of one `poll_send`. -/
structure Poll (F : Type) where
  nowMs : F
  srttMs : F
  levelIndex : ℕ
  outLen : ℕ

inductive Call (F : Type)
  | enqueue (message : Message)
  | beginPass
  | pollSend (poll : Poll F)
  | onAck (ack : Ack) (nowMs : F)

variable (r : SendRing n F)

def polled (p : Poll F) : SendRing n F × Option (Except Error Data) :=
  r.pollSend p.nowMs p.srttMs p.levelIndex p.outLen

def Call.run : Call F → SendRing n F
  | .enqueue message => (r.enqueue message).1
  | .beginPass => r.beginPass
  | .pollSend poll => (r.polled poll).1
  | .onAck ack nowMs => (r.onAck ack nowMs).1

def sending : Machine (SendRing n F) (Call F) :=
  ⟨r, fun s c => some (c.run s)⟩

def passTo : (ℕ → Poll F) → ℕ → SendRing n F → SendRing n F
  | _, 0, r => r
  | polls, k + 1, r => passTo (fun i => polls (i + 1)) k (r.polled (polls 0)).1

/-- A message that fits the window gets sequence numbers below the one the encoder reserves. -/
def SparesMax : Call F → Prop
  | .enqueue message =>
    fragmentCount message.totalLen r.fragmentCapacity ≤ r.windowFree →
      r.next.toNat + fragmentCount message.totalLen r.fragmentCapacity ≤ SEQ_MAX.toNat
  | _ => True

instance (r : SendRing n F) : ∀ c, Decidable (SparesMax r c)
  | .enqueue message => inferInstanceAs (Decidable
      (fragmentCount message.totalLen r.fragmentCapacity ≤ r.windowFree →
        r.next.toNat + fragmentCount message.totalLen r.fragmentCapacity ≤ SEQ_MAX.toNat))
  | .beginPass => .isTrue trivial
  | .pollSend _ => .isTrue trivial
  | .onAck _ _ => .isTrue trivial

/-! ## One scan -/

theorem encodeData_ok {d : Data} {outLen : ℕ} (hseq : d.seq ≠ SEQ_MAX)
    (hlen : HEADER_LEN + d.body.length ≤ outLen) :
    encodeData outLen d = .ok (HEADER_LEN + d.body.length) := by
  rw [encodeData, if_neg hseq, if_neg (by omega)]

/-- A scan answers nothing, or a packet that lies ahead of where it started. -/
def Advances (out : SendRing n F × Option (Except Error Data)) : Prop :=
  out.2 = none ∨ ∃ d, out.2 = some (.ok d) ∧ r.cursor.toNat < out.1.cursor.toNat

theorem pollLoop_advances (nowMs srttMs : F) (lv : Level F) {outLen k : ℕ} {r : SendRing n F}
    (h1 : r.base.toNat ≤ r.cursor.toNat) (h2 : r.cursor.toNat ≤ r.next.toNat)
    (hk : k = r.next.toNat - r.cursor.toNat) (hlen : ∀ q, r.base.toNat ≤ q → q < r.next.toNat →
      HEADER_LEN + (r.slotAt q).body.length ≤ outLen) :
    Advances r (pollLoop nowMs srttMs lv outLen k r) := by
  revert hlen
  apply pollLoop_rule (P := fun r out => (∀ q, r.base.toNat ≤ q → q < r.next.toNat →
    HEADER_LEN + (r.slotAt q).body.length ≤ outLen) → Advances r out) ?_ ?_ ?_ k r h1 h2 hk
  · intro r _ _
    exact .inl rfl
  · intro r r' out hkept hs hrest hlen
    have hlen' : ∀ q, r'.base.toNat ≤ q → q < r'.next.toNat →
        HEADER_LEN + (r'.slotAt q).body.length ≤ outLen := by
      intro q hq1 hq2
      rw [hkept.base] at hq1
      rw [hkept.next] at hq2
      rw [slotAt, hkept.body]
      exact hlen q hq1 hq2
    rcases hrest hlen' with hnone | ⟨d, hd, hlt⟩
    · exact .inl hnone
    · have hlt' : (r.cursor + 1).toNat < out.1.cursor.toNat := hlt
      exact .inr ⟨d, hd, by omega⟩
  · intro r h1 h2 _ hlen
    have hnext := r.next.toNat_lt
    have hs : (r.cursor + 1).toNat = r.cursor.toNat + 1 := Serial.toNat_succ (by omega)
    -- the cursor is below `next`, so it is not the last sequence number of all
    have hmax : r.packetAt.seq ≠ SEQ_MAX := by
      intro he
      have hcur : r.cursor.toNat = 2 ^ 32 - 1 := congrArg UInt32.toNat he
      omega
    rw [encodeData_ok hmax (hlen r.cursor.toNat h1 h2)]
    refine .inr ⟨_, rfl, ?_⟩
    show r.cursor.toNat < (r.cursor + 1).toNat
    omega

/-! ## The window keeps its fragments encodable -/

/-- The ring holds the fragments of some log, none longer than a slot. -/
def Fits : Prop :=
  ∃ log, Holds log r ∧ ∀ b ∈ log, b.length ≤ r.storageCapacity

section Fits

variable {r : SendRing n F}

theorem Fits.advances (h : Fits r) {p : Poll F} (hp : HEADER_LEN + r.storageCapacity ≤ p.outLen) :
    Advances r (r.polled p) := by
  obtain ⟨log, hh, hb⟩ := id h
  apply pollLoop_advances
  · exact hh.base_le
  · exact hh.cursor_le
  · rw [Serial.toNat_sub, if_pos hh.cursor_le]
  · intro q h1 h2
    have := hb _ (List.mem_of_getElem? (hh.body q h1 h2))
    omega

theorem Fits.polled (h : Fits r) (p : Poll F) : Fits (r.polled p).1 := by
  obtain ⟨log, hh, hb⟩ := h
  obtain ⟨hp, hp'⟩ := hh.pollSend p.nowMs p.srttMs p.levelIndex p.outLen
  refine ⟨log, hp', fun b hm => ?_⟩
  show b.length ≤ (r.polled p).1.slotLen
  rw [SendRing.polled, hp.kept.slotLen]
  exact hb b hm

theorem onAck_slotLen (r : SendRing n F) (ack : Ack) (nowMs : F) :
    (r.onAck ack nowMs).1.slotLen = r.slotLen := by
  obtain ⟨slot, nackBelow, h⟩ := r.onAck_eq ack nowMs
  rw [h]
  show (r.ackCumulative ack).slotLen = r.slotLen
  unfold ackCumulative
  split_ifs
  · exact (Kept.accountLoop _ _ _ r).1.slotLen
  · rfl

theorem Fits.onAck (h : Fits r) (ack : Ack) (nowMs : F) : Fits (r.onAck ack nowMs).1 := by
  obtain ⟨log, hh, hb⟩ := h
  refine ⟨log, (hh.onAck ack nowMs).holds, fun b hm => ?_⟩
  rw [storageCapacity, onAck_slotLen]
  exact hb b hm

theorem enqueue_slotLen (r : SendRing n F) (m : Message) : (r.enqueue m).1.slotLen = r.slotLen := by
  obtain ⟨slot, h⟩ := writeFragments_eq m
    (List.range (fragmentCount m.totalLen r.fragmentCapacity)) r
  unfold SendRing.enqueue
  by_cases hfree : r.windowFree < fragmentCount m.totalLen r.fragmentCapacity
  · rw [if_pos hfree]
  · rw [if_neg hfree]
    generalize writeFragments m _ r = out at h
    obtain ⟨r', none | error⟩ := out
    · simp only at h ⊢
      split_ifs <;> rw [h]
    · simp only at h ⊢
      rw [h]

theorem Fits.enqueue (h : Fits r) {m : Message} (hok : SparesMax r (.enqueue m)) :
    Fits (r.enqueue m).1 := by
  obtain ⟨log, hh, hb⟩ := id h
  by_cases hfree : r.windowFree < fragmentCount m.totalLen r.fragmentCapacity
  · have hsame : (r.enqueue m).1 = r := by
      unfold SendRing.enqueue
      rw [if_pos hfree]
    rw [hsame]
    exact h
  · have hlt : log.length + fragmentCount m.totalLen r.fragmentCapacity < 2 ^ 32 := by
      have hmax : SEQ_MAX.toNat = 2 ^ 32 - 1 := rfl
      have := hok (by omega)
      rw [hh.next_eq] at this
      omega
    rcases hh.enqueue m with ⟨hfull, -⟩ | ⟨-, henq⟩
    · exact absurd hfull hfree
    refine ⟨_, (henq hlt).holds, fun b hm => ?_⟩
    rw [storageCapacity, enqueue_slotLen]
    rcases List.mem_append.mp hm with hold | hnew
    · exact hb b hold
    · exact (m.length_fragment_le b hnew).trans hh.capacity_le

end Fits

/-! ## Every run -/

section Runs

variable {r₀ r : SendRing n F} {bodiesLen storageLen fragmentCapacity : ℕ} {channel : Channel}

theorem fits_new (h : newWithCapacity n bodiesLen storageLen fragmentCapacity channel = .ok r₀) :
    Fits r₀ := by
  unfold newWithCapacity at h
  split_ifs at h with hbad hlen
  cases h
  exact ⟨[], .fresh channel (by omega) (by omega) (by omega), by simp⟩

theorem fits_of_reach
    (hnew : newWithCapacity n bodiesLen storageLen fragmentCapacity channel = .ok r₀)
    (h : (sending r₀).ReachVia SparesMax r) : Fits r := by
  refine h.invariant (fits_new hnew) ?_
  intro s c s' hs hok hstep
  simp only [sending, Option.some.injEq] at hstep
  subst hstep
  cases c with
  | enqueue m => exact hs.enqueue hok
  | beginPass =>
    obtain ⟨log, hh, hb⟩ := hs
    exact ⟨log, hh.beginPass, hb⟩
  | pollSend p => exact hs.polled p
  | onAck ack nowMs => exact hs.onAck ack nowMs

theorem Fits.pass_ends : ∀ (k : ℕ) {r : SendRing n F}, Fits r →
    r.next.toNat - r.cursor.toNat ≤ k → ∀ polls : ℕ → Poll F,
    (∀ i, HEADER_LEN + r.storageCapacity ≤ (polls i).outLen) →
    ∃ i ≤ k, ((passTo polls i r).polled (polls i)).2 = none := by
  intro k
  induction k with
  | zero =>
    intro r h hk polls hp
    rcases h.advances (hp 0) with hnone | ⟨d, hd, hlt⟩
    · exact ⟨0, le_rfl, hnone⟩
    · obtain ⟨log, hh, -⟩ := h
      have hle := (hh.pollSend (polls 0).nowMs (polls 0).srttMs (polls 0).levelIndex
        (polls 0).outLen).1.cursor_le
      exact absurd (lt_of_lt_of_le hlt hle) (by omega)
  | succ k ih =>
    intro r h hk polls hp
    rcases h.advances (hp 0) with hnone | ⟨d, hd, hlt⟩
    · exact ⟨0, Nat.zero_le _, hnone⟩
    · obtain ⟨log, hh, -⟩ := id h
      obtain ⟨hpol, -⟩ := hh.pollSend (polls 0).nowMs (polls 0).srttMs (polls 0).levelIndex
        (polls 0).outLen
      have hkept : Kept r (r.polled (polls 0)).1 := hpol.kept
      obtain ⟨i, hi, hnone⟩ := ih (h.polled (polls 0))
        (by rw [hkept.next]; omega) (fun i => polls (i + 1))
        (by intro i; rw [storageCapacity, hkept.slotLen]; exact hp (i + 1))
      exact ⟨i + 1, by omega, hnone⟩

/-- **The send ring never jams** while no message is given the sequence number `u32::MAX`: with room
for a packet every scan answers nothing or a packet, and a pass ends within as many polls as the
ring has slots. -/
theorem never_jams
    (hnew : newWithCapacity n bodiesLen storageLen fragmentCapacity channel = .ok r₀)
    (h : (sending r₀).ReachVia SparesMax r) :
    (∀ p : Poll F, HEADER_LEN + r.storageCapacity ≤ p.outLen →
      (r.polled p).2 = none ∨ ∃ d, (r.polled p).2 = some (.ok d)) ∧
    ∀ polls : ℕ → Poll F, (∀ i, HEADER_LEN + r.storageCapacity ≤ (polls i).outLen) →
      ∃ k ≤ n, ((passTo polls k r).polled (polls k)).2 = none := by
  have hf := fits_of_reach hnew h
  obtain ⟨log, hh, -⟩ := id hf
  constructor
  · intro p hp
    rcases hf.advances hp with hnone | ⟨d, hd, -⟩
    · exact .inl hnone
    · exact .inr ⟨d, hd⟩
  · intro polls hp
    have hw := hh.window
    have hb := hh.base_le
    exact Fits.pass_ends n hf (by omega) polls hp

end Runs

theorem never_jams_acked : ∃ r : SendRing 4 Float,
    (sending (fresh 16 16 1)).ReachVia SparesMax r ∧ r.cursor.toNat < r.next.toNat ∧
      ∀ now : Float, ∃ k ≤ 4,
        ((passTo (fun _ => ⟨now, 10.0, 1, 64⟩) k r).polled ⟨now, 10.0, 1, 64⟩).2 = none := by
  obtain ⟨r, h, hcur, hcap⟩ := (sending (fresh 16 16 1 : SendRing 4 Float)).exists_reachVia
    SparesMax
    [.enqueue Link.twoFragments, .enqueue .empty, .pollSend ⟨0.0, 10.0, 1, 64⟩,
      .onAck { kind := .ack, nack := false, triggerChannel := 1, triggerSeq := 0
               cumulative := fun _ => 1, reported := CHANNEL_COUNT } 5.0]
    (fun r => r.cursor.toNat < r.next.toNat ∧ r.storageCapacity = 16) (by decide +kernel)
  have hnew : newWithCapacity 4 64 16 16 1 = .ok (fresh 16 16 1 : SendRing 4 Float) := rfl
  refine ⟨r, h, hcur, fun now => (never_jams hnew h).2 _ fun _ => ?_⟩
  rw [hcap]
  show HEADER_LEN + 16 ≤ 64
  decide

/-! ## The last sequence number -/

section Last

variable {r : SendRing n F}

theorem polled_last (hcur : r.cursor = SEQ_MAX) (hnext : r.next = 0) (hout : r.outstanding = 0)
    (hocc : (r.slot (slotIndex n SEQ_MAX)).occupied = true)
    (hsent : (r.slot (slotIndex n SEQ_MAX)).sent = false) (p : Poll F) :
    r.polled p = (r, some (.error .malformed)) := by
  have hfuel : (r.next - r.cursor).toNat = 1 := by
    rw [hcur, hnext]
    rfl
  have hne : r.cursor ≠ r.next := by
    rw [hcur, hnext]
    decide
  have henc : encodeData p.outLen r.packetAt = .error .malformed := by
    exact if_pos hcur
  rw [SendRing.polled, SendRing.pollSend, hfuel, pollLoop, if_neg hne]
  simp only [hcur, hocc, Bool.not_true, Bool.false_eq_true, if_false, hout, OUTSTANDING_CAP,
    SendRing.due, hsent, Bool.not_false, if_true, henc]
  simp

theorem enqueue_last {log : List Str} (h : Holds log r) (hcap : r.fragmentCapacity = 16)
    (hbase : r.base = SEQ_MAX) (hnext : r.next = SEQ_MAX) :
    (r.enqueue .empty).1.base = SEQ_MAX ∧ (r.enqueue .empty).1.next = 0 ∧
      ((r.enqueue .empty).1.slot (slotIndex n SEQ_MAX)).occupied = true ∧
      ((r.enqueue .empty).1.slot (slotIndex n SEQ_MAX)).sent = false := by
  have hn := Nat.pos_of_neZero n
  have hcount : fragmentCount Message.empty.totalLen r.fragmentCapacity = 1 := by
    rw [hcap]
    rfl
  have hfree : ¬ r.windowFree < 1 := by
    rw [windowFree, inFlight, hbase, hnext, UInt32.sub_self]
    show ¬ min n (2 ^ 32 - 1) - 0 < 1
    omega
  have hfirst : 0 * r.fragmentCapacity < Message.empty.streamLen := by
    rw [Nat.zero_mul]
    decide
  obtain ⟨last, hfrag⟩ := Message.empty.fragment_eq h.capacity_pos hfirst h.capacity_le
  have hlen := length_slice_le r.fragmentCapacity Message.empty.stream 0
  have hlt := h.capacity_lt
  have hwrite : writeFragments Message.empty (List.range 1) r =
      ({ r with slot := Function.update r.slot (slotIndex n SEQ_MAX)
                  { SendSlot.empty with
                    body := slice r.fragmentCapacity Message.empty.stream 0
                    occupied := true, last := last } }, none) := by
    show writeFragments Message.empty [0] r = _
    rw [writeFragments, if_neg (by omega), hfrag]
    simp only
    rw [if_neg (by omega), hnext]
    rfl
  have henq : (r.enqueue .empty).1 = { r with
      slot := Function.update r.slot (slotIndex n SEQ_MAX)
        { SendSlot.empty with
          body := slice r.fragmentCapacity Message.empty.stream 0
          occupied := true, last := last }
      next := r.next + ofNat 1 } := by
    unfold SendRing.enqueue
    simp only [hcount]
    rw [if_neg hfree, hwrite]
    rfl
  rw [henq]
  refine ⟨hbase, ?_, ?_, ?_⟩
  · show r.next + ofNat 1 = 0
    rw [hnext]
    rfl
  · simp
  · simp only [Function.update_self]
    rfl

/-- The acknowledgement of everything below `k` on channel one. -/
def ackOf (k : ℕ) : Ack :=
  { kind := .ack, nack := false, triggerChannel := 1, triggerSeq := ofNat (k - 1)
    cumulative := fun _ => ofNat k, reported := CHANNEL_COUNT }

theorem exists_drained (r₀ : SendRing n F) (h₀ : Holds [] r₀) (hcap : r₀.fragmentCapacity = 16)
    (hch : r₀.channel = 1) (hbase : r₀.base = 0) (nowMs : F) : ∀ k, k < 2 ^ 32 →
    ∃ log r, (sending r₀).Reach r ∧ Holds log r ∧ log.length = k ∧ r.base.toNat = k ∧
      r.fragmentCapacity = 16 ∧ r.channel = 1
  | 0, _ => ⟨[], r₀, .start, h₀, rfl, by rw [hbase]; rfl, hcap, hch⟩
  | k + 1, hk => by
    obtain ⟨log, r, hr, hh, hlen, hb, hc, hchan⟩ :=
      exists_drained r₀ h₀ hcap hch hbase nowMs k (by omega)
    obtain ⟨x, j, r', d, henq, hpoll, he⟩ := Link.emit_empty hh hc (hb.trans hlen.symm)
      (by omega) nowMs
    have h1 : (sending r₀).Reach r' := by
      have hx : (sending r₀).Reach (r.enqueue .empty).1.beginPass :=
        .step (a := .beginPass) (.step (a := .enqueue .empty) hr trivial rfl) trivial rfl
      refine .step (a := .pollSend ⟨nowMs, nowMs, 1, 64⟩) hx trivial ?_
      show some (((r.enqueue .empty).1.beginPass).pollSend nowMs nowMs 1 64).1 = some r'
      rw [henq, hpoll]
    have hbase' : r'.base = ofNat k := by
      rw [he.base, ← hb, UInt32.ofNat_toNat]
    have hsucc : (ofNat k + 1).toNat = k + 1 := by
      rw [Serial.ofNat_succ, Serial.toNat_ofNat_lt hk]
    have hnext : r'.next = r'.base + 1 := by
      apply toNat_inj.mp
      rw [he.holds.next_eq, List.length_append, List.length_singleton, hlen, hbase', hsucc]
    have hack := Link.onAck_base_succ (a := ackOf (k + 1)) nowMs
      (by rw [he.channel, hchan]; show 1 < 19; omega)
      (by rw [hbase', Serial.ofNat_succ]; rfl) hnext
    have hacked := he.holds.onAck (ackOf (k + 1)) nowMs
    refine ⟨_, (r'.onAck (ackOf (k + 1)) nowMs).1, .step (a := .onAck _ nowMs) h1 trivial rfl,
      hacked.holds, ?_, ?_, ?_, ?_⟩
    · rw [List.length_append, List.length_singleton, hlen]
    · rw [hack, hbase', hsucc]
    · rw [hacked.fragmentCapacity, he.capacity, hc]
    · rw [hacked.channel, he.channel, hchan]

/-- **The ring jams at the last sequence number.** After `2 ^ 32 - 1` fragments the next one can
never be encoded: every poll from then on is refused and leaves the ring as it is. -/
theorem jams : ∃ r : SendRing RING_SLOTS Float, (sending (fresh 16 16 1)).Reach r ∧
    r.beginPass = r ∧ ∀ p : Poll Float, r.polled p = (r, some (.error .malformed)) := by
  obtain ⟨log, r, hr, hh, hlen, hb, hc, -⟩ := exists_drained
    (fresh 16 16 1 : SendRing RING_SLOTS Float)
    (.fresh 1 (by decide) le_rfl (by decide)) rfl rfl rfl 0.0 (2 ^ 32 - 1) (by decide)
  have hbase : r.base = SEQ_MAX := by
    apply toNat_inj.mp
    rw [hb]
    rfl
  have hnext : r.next = SEQ_MAX := by
    apply toNat_inj.mp
    rw [hh.next_eq, hlen]
    rfl
  obtain ⟨hxb, hxn, hocc, hsent⟩ := enqueue_last hh hc hbase hnext
  refine ⟨(r.enqueue .empty).1.beginPass,
    .step (a := .beginPass) (.step (a := .enqueue .empty) hr trivial rfl) trivial rfl, rfl, ?_⟩
  exact polled_last hxb hxn rfl hocc hsent

end Last

end SendRing

end OpenStream.Lowlat
