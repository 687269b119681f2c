import OpenStream.Lowlat.SendRing

/-!
# What the send ring holds

`Holds log r` says that the window `[base, next)` ends with the log and its slots hold the log's
fragments. A slot that was sent and is no longer occupied is retired.

* **`SendRing.Holds.pollSend`**: a scan emits only fragments of the window, under their own
  sequence number, and retires none (`Kept`).
* **`SendRing.Holds.onAck`**: an acknowledgement moves the base to its cumulative value or not at
  all, and retires at most the fragment it names.
* **`SendRing.Holds.enqueue`**: queueing extends the log by the message's fragments.
-/

namespace OpenStream.Lowlat

open Bytes Function Serial Lowlat.Seq

variable {F : Type} [F64 F]

namespace SendRing

variable {n : ℕ} [NeZero n]

/-! ## What a scan leaves alone -/

def slotAt (r : SendRing n F) (p : ℕ) : SendSlot F := r.slot (Fin.ofNat n p)

/-- Only the scan position, the counters and the bookkeeping of held fragments differ. -/
structure Kept (r r' : SendRing n F) : Prop where
  slotLen : r'.slotLen = r.slotLen
  fragmentCapacity : r'.fragmentCapacity = r.fragmentCapacity
  channel : r'.channel = r.channel
  base : r'.base = r.base
  next : r'.next = r.next
  body : ∀ i, (r'.slot i).body = (r.slot i).body
  retired : ∀ i, SendSlot.retired (r'.slot i) = SendSlot.retired (r.slot i)

namespace Kept

variable {r r' r'' : SendRing n F}

omit [NeZero n] [F64 F] in
theorem refl (r : SendRing n F) : Kept r r := ⟨rfl, rfl, rfl, rfl, rfl, fun _ => rfl, fun _ => rfl⟩

omit [NeZero n] [F64 F] in
theorem trans (h : Kept r r') (h' : Kept r' r'') : Kept r r'' where
  slotLen := h'.slotLen.trans h.slotLen
  fragmentCapacity := h'.fragmentCapacity.trans h.fragmentCapacity
  channel := h'.channel.trans h.channel
  base := h'.base.trans h.base
  next := h'.next.trans h.next
  body i := (h'.body i).trans (h.body i)
  retired i := (h'.retired i).trans (h.retired i)

omit [NeZero n] [F64 F] in
theorem update (r : SendRing n F) (i : Fin n) {s : SendSlot F} (hb : s.body = (r.slot i).body)
    (hr : SendSlot.retired s = SendSlot.retired (r.slot i)) :
    Kept r { r with slot := update r.slot i s } := by
  refine ⟨rfl, rfl, rfl, rfl, rfl, fun j => ?_, fun j => ?_⟩
  · simp only [update_apply]
    split_ifs with h
    · rw [hb, h]
    · rfl
  · simp only [update_apply]
    split_ifs with h
    · rw [hr, h]
    · rfl

omit [NeZero n] [F64 F] in
theorem scan (r : SendRing n F) (cursor : UInt32) (nackBelow : Option UInt32) (outstanding : ℕ) :
    Kept r { r with cursor, nackBelow, outstanding } :=
  ⟨rfl, rfl, rfl, rfl, rfl, fun _ => rfl, fun _ => rfl⟩

omit [NeZero n] in
theorem classify (r : SendRing n F) (i : Fin n) (nowMs srttMs : F) (lv : Level F) :
    Kept r (r.classify i nowMs srttMs lv) := by
  unfold SendRing.classify
  simp only
  split_ifs
  · exact refl r
  · exact ⟨rfl, rfl, rfl, rfl, rfl, fun _ => rfl, fun _ => rfl⟩
  · exact refl r

theorem transmit (r : SendRing n F) (nowMs srttMs : F) (lv : Level F)
    (ho : (r.slot (slotIndex n r.cursor)).occupied = true) :
    Kept r (r.transmit nowMs srttMs lv) := by
  have hbody : ∀ (s : SendSlot F) (b : Bool), (SendSlot.transmitted s b nowMs).body = s.body := by
    intro s b
    unfold SendSlot.transmitted
    split_ifs <;> rfl
  have hocc : ∀ (s : SendSlot F) (b : Bool),
      (SendSlot.transmitted s b nowMs).occupied = s.occupied := by
    intro s b
    unfold SendSlot.transmitted
    split_ifs <;> rfl
  have h1 := update r (slotIndex n r.cursor) (hbody (r.slot (slotIndex n r.cursor))
    (r.nacked r.cursor (r.slot (slotIndex n r.cursor))))
    (by rw [SendSlot.retired, SendSlot.retired, hocc, ho, Bool.not_true, Bool.and_false,
      Bool.and_false])
  refine h1.trans (trans ?_ ((classify _ (slotIndex n r.cursor) nowMs srttMs lv).trans
    (scan _ (r.cursor + 1) _ _)))
  exact ⟨rfl, rfl, rfl, rfl, rfl, fun _ => rfl, fun _ => rfl⟩

omit [F64 F] in
theorem accountLoop (cumulative : UInt32) : ∀ (k : ℕ) (s : UInt32) (r : SendRing n F),
    Kept r (accountLoop cumulative k s r) ∧ (accountLoop cumulative k s r).cursor = r.cursor
  | 0, _, r => ⟨refl r, rfl⟩
  | k + 1, s, r => by
    unfold SendRing.accountLoop
    simp only
    split_ifs with h1 h2
    · obtain ⟨h3, h4⟩ := accountLoop cumulative k (s + 1) { r with
        slot := Function.update r.slot (slotIndex n s)
          { r.slot (slotIndex n s) with ackedAccounted := true }
        bytesAcked := satAdd 64 r.bytesAcked (r.slot (slotIndex n s)).body.length }
      have h5 := update r (slotIndex n s)
        (s := { r.slot (slotIndex n s) with ackedAccounted := true }) rfl rfl
      refine ⟨trans ?_ h3, h4⟩
      exact ⟨rfl, rfl, rfl, rfl, rfl, h5.body, h5.retired⟩
    · exact accountLoop cumulative k (s + 1) r
    · exact ⟨refl r, rfl⟩

end Kept

/-- What a scan may do: move the cursor within the window, and emit a fragment of the window. -/
structure Polled (r : SendRing n F) (out : SendRing n F × Option (Except Error Data)) : Prop where
  kept : Kept r out.1
  base_le : r.base.toNat ≤ out.1.cursor.toNat
  cursor_le : out.1.cursor.toNat ≤ r.next.toNat
  data : ∀ d, out.2 = some (.ok d) → d.channel = r.channel ∧ r.base.toNat ≤ d.seq.toNat ∧
    d.seq.toNat < r.next.toNat ∧ d.body = (r.slotAt d.seq.toNat).body

omit [F64 F] in
theorem Polled.of_kept {r r' : SendRing n F} {out : SendRing n F × Option (Except Error Data)}
    (hk : Kept r r') (h : Polled r' out) : Polled r out := by
  refine ⟨hk.trans h.kept, ?_, ?_, ?_⟩
  · rw [← hk.base]
    exact h.base_le
  · rw [← hk.next]
    exact h.cursor_le
  · intro d hd
    obtain ⟨h1, h2, h3, h4⟩ := h.data d hd
    rw [hk.channel] at h1
    rw [hk.base] at h2
    rw [hk.next] at h3
    exact ⟨h1, h2, h3, h4.trans (hk.body _)⟩

/-- **The scan rule.** What holds at the end of a pass and of the fragment emitted, and is carried
back over a fragment that was passed by, holds of every scan. -/
theorem pollLoop_rule {nowMs srttMs : F} {lv : Level F} {outLen : ℕ}
    {P : SendRing n F → SendRing n F × Option (Except Error Data) → Prop}
    (hdone : ∀ r, r.base.toNat ≤ r.next.toNat →
      P r ({ r with nackBelow := none, cursor := r.base }, none))
    (hskip : ∀ r r' out, Kept r r' → (r.cursor + 1).toNat = r.cursor.toNat + 1 →
      P { r' with cursor := r.cursor + 1 } out → P r out)
    (hemit : ∀ r, r.base.toNat ≤ r.cursor.toNat → r.cursor.toNat < r.next.toNat →
      (r.slot (slotIndex n r.cursor)).occupied = true →
      P r (match encodeData outLen r.packetAt with
        | .error error => (r, some (.error error))
        | .ok _ => (r.transmit nowMs srttMs lv, some (.ok r.packetAt)))) :
    ∀ (k : ℕ) (r : SendRing n F), r.base.toNat ≤ r.cursor.toNat → r.cursor.toNat ≤ r.next.toNat →
      k = r.next.toNat - r.cursor.toNat → P r (pollLoop nowMs srttMs lv outLen k r)
  | 0, r, h1, h2, _ => hdone r (h1.trans h2)
  | k + 1, r, h1, h2, hk => by
    have hs : (r.cursor + 1).toNat = r.cursor.toNat + 1 := by
      have := r.next.toNat_lt
      exact toNat_succ (by omega)
    -- the scan goes on one step further, over a ring that differs only in counters
    have go : ∀ r' : SendRing n F, Kept r r' → P r (pollLoop nowMs srttMs lv outLen k
        { r' with cursor := r.cursor + 1 }) := by
      intro r' hk'
      refine hskip r r' _ hk' hs (pollLoop_rule hdone hskip hemit k _ ?_ ?_ ?_)
      · show r'.base.toNat ≤ (r.cursor + 1).toNat
        rw [hk'.base]
        omega
      · show (r.cursor + 1).toNat ≤ r'.next.toNat
        rw [hk'.next]
        omega
      · show k = r'.next.toNat - (r.cursor + 1).toNat
        rw [hk'.next]
        omega
    unfold pollLoop
    by_cases hc : r.cursor = r.next
    · rw [hc] at hk
      omega
    rw [if_neg hc]
    by_cases h3 : (!(r.slot (slotIndex n r.cursor)).occupied) = true
    · rw [if_pos h3]
      exact go r (Kept.refl r)
    rw [if_neg h3]
    by_cases h4 : OUTSTANDING_CAP ≤ r.outstanding
    · rw [if_pos h4]
      exact go _ (Kept.classify r _ nowMs srttMs lv)
    rw [if_neg h4]
    by_cases h5 : (!r.due r.cursor (r.slot (slotIndex n r.cursor)) nowMs srttMs) = true
    · rw [if_pos h5]
      split_ifs
      · exact go _ ((Kept.scan r r.cursor r.nackBelow _).trans
          (Kept.classify _ _ nowMs srttMs lv))
      · exact go _ (Kept.classify r _ nowMs srttMs lv)
    rw [if_neg h5]
    exact hemit r h1 (by omega) (by simpa using h3)

theorem pollLoop_polled (nowMs srttMs : F) (lv : Level F) (outLen : ℕ) :
    ∀ (k : ℕ) (r : SendRing n F), r.base.toNat ≤ r.cursor.toNat → r.cursor.toNat ≤ r.next.toNat →
      k = r.next.toNat - r.cursor.toNat → Polled r (pollLoop nowMs srttMs lv outLen k r) := by
  apply pollLoop_rule
  · intro r h
    exact ⟨Kept.scan r _ _ _, le_rfl, h, by rintro d ⟨⟩⟩
  · intro r r' out hk _ hp
    exact Polled.of_kept (hk.trans (Kept.scan r' (r.cursor + 1) r'.nackBelow r'.outstanding)) hp
  · intro r h1 h2 hocc
    cases encodeData outLen r.packetAt with
    | error e => exact ⟨Kept.refl r, h1, h2.le, by rintro d ⟨⟩⟩
    | ok w =>
      have hs : (r.cursor + 1).toNat = r.cursor.toNat + 1 := by
        have := r.next.toNat_lt
        exact toNat_succ (by omega)
      refine ⟨Kept.transmit r nowMs srttMs lv hocc, ?_, ?_, ?_⟩
      · show r.base.toNat ≤ (r.cursor + 1).toNat
        omega
      · show (r.cursor + 1).toNat ≤ r.next.toNat
        omega
      · rintro d hd
        cases hd
        exact ⟨rfl, h1, h2, rfl⟩

/-! ## The window -/

/-- The window `[base, next)` is at most the ring, the scan is in it, and its slots hold the fragments
of the log. -/
structure Holds (log : List Str) (r : SendRing n F) : Prop where
  next_eq : r.next.toNat = log.length
  base_le : r.base.toNat ≤ r.cursor.toNat
  cursor_le : r.cursor.toNat ≤ r.next.toNat
  window : r.next.toNat ≤ r.base.toNat + n
  body : ∀ q, r.base.toNat ≤ q → q < r.next.toNat → log[q]? = some (r.slotAt q).body
  capacity_pos : 0 < r.fragmentCapacity
  capacity_le : r.fragmentCapacity ≤ r.slotLen
  capacity_lt : r.fragmentCapacity ≤ 2 ^ 16 - 1

section Holds

variable {log : List Str} {r r' : SendRing n F}

theorem Holds.fresh {storageLen fragmentCapacity : ℕ} (channel : Channel)
    (h0 : 0 < fragmentCapacity) (h1 : fragmentCapacity ≤ storageLen)
    (h2 : fragmentCapacity ≤ 2 ^ 16 - 1) :
    Holds [] (fresh storageLen fragmentCapacity channel : SendRing n F) where
  next_eq := rfl
  base_le := le_rfl
  cursor_le := le_rfl
  window := Nat.zero_le _
  body q _ hq := absurd hq (Nat.not_lt_zero q)
  capacity_pos := h0
  capacity_le := h1
  capacity_lt := h2

omit [F64 F] in
theorem Holds.of_kept (h : Holds log r) (hk : Kept r r') (h1 : r.base.toNat ≤ r'.cursor.toNat)
    (h2 : r'.cursor.toNat ≤ r.next.toNat) : Holds log r' where
  next_eq := by rw [hk.next]; exact h.next_eq
  base_le := by rw [hk.base]; exact h1
  cursor_le := by rw [hk.next]; exact h2
  window := by rw [hk.next, hk.base]; exact h.window
  body q := by
    rw [hk.base, hk.next, slotAt, hk.body]
    exact h.body q
  capacity_pos := by rw [hk.fragmentCapacity]; exact h.capacity_pos
  capacity_le := by rw [hk.fragmentCapacity, hk.slotLen]; exact h.capacity_le
  capacity_lt := by rw [hk.fragmentCapacity]; exact h.capacity_lt

theorem Holds.pollSend (h : Holds log r) (nowMs srttMs : F) (levelIndex outLen : ℕ) :
    Polled r (r.pollSend nowMs srttMs levelIndex outLen) ∧
      Holds log (r.pollSend nowMs srttMs levelIndex outLen).1 := by
  have hp : Polled r (r.pollSend nowMs srttMs levelIndex outLen) := by
    refine pollLoop_polled _ _ _ _ _ r h.base_le h.cursor_le ?_
    rw [toNat_sub, if_pos h.cursor_le]
  exact ⟨hp, h.of_kept hp.kept hp.base_le hp.cursor_le⟩

omit [F64 F] in
theorem Holds.beginPass (h : Holds log r) : Holds log r.beginPass :=
  h.of_kept ⟨rfl, rfl, rfl, rfl, rfl, fun _ => rfl, fun _ => rfl⟩ le_rfl
    (h.base_le.trans h.cursor_le)

omit [F64 F] in
theorem Holds.setFragmentCapacity (h : Holds log r) (capacity : ℕ) :
    Holds log (r.setFragmentCapacity capacity).1 := by
  unfold SendRing.setFragmentCapacity
  split_ifs with hc
  · simp only [canSetFragmentCapacity, decide_eq_true_eq] at hc
    exact { h with capacity_pos := hc.1, capacity_le := hc.2.1, capacity_lt := hc.2.2.1 }
  · exact h

/-! ## Acknowledgements -/

theorem cumulative_between {k base next : UInt32} (hb : base.toNat ≤ next.toNat)
    (h1 : gt k base = true) (h2 : le k next = true) :
    base.toNat < k.toNat ∧ k.toNat ≤ next.toNat ∧ k.toNat - base.toNat < 2 ^ 31 ∧
      next.toNat - k.toNat < 2 ^ 31 := by
  rw [gt_eq, sgt, decide_eq_true_iff, toNat_sub] at h1
  rw [le, ge_eq, sge, decide_eq_true_iff, toNat_sub] at h2
  have := k.toNat_lt
  have := next.toNat_lt
  split_ifs at h1 h2 <;> omega

omit [F64 F] in
theorem Holds.advanceBase (h : Holds log r) {k : UInt32} (h1 : gt k r.base = true)
    (h2 : le k r.next = true) : Holds log (r.advanceBase k) := by
  obtain ⟨ha, hcur⟩ := Kept.accountLoop k (k - r.base).toNat r.base r
  have hcl := h.cursor_le
  have hcb := h.base_le
  have hw := h.window
  obtain ⟨h3, hk, h4, h5⟩ := cumulative_between (hcb.trans hcl) h1 h2
  have hmax : (if lt r.cursor k then k else r.cursor).toNat =
      max r.cursor.toNat k.toNat := by
    have hlt : lt r.cursor k = true ↔ r.cursor.toNat < k.toNat := by
      rw [lt, gt_eq, sgt, decide_eq_true_iff, toNat_sub]
      have := r.next.toNat_lt
      split_ifs <;> omega
    split_ifs with hc
    · rw [max_eq_right (hlt.mp hc).le]
    · rw [max_eq_left (Nat.le_of_not_lt fun hn => hc (hlt.mpr hn))]
  unfold SendRing.advanceBase
  refine ⟨?_, ?_, ?_, ?_, ?_, ?_, ?_, ?_⟩
  · simpa only [ha.next] using h.next_eq
  · simp only [hcur, hmax]
    exact le_max_right _ _
  · simp only [hcur, hmax, ha.next]
    exact max_le hcl hk
  · simp only [ha.next]
    omega
  · intro q hq1 hq2
    simp only [ha.next] at hq1 hq2
    exact (h.body q (by omega) hq2).trans (congrArg some (ha.body _).symm)
  · simpa only [ha.fragmentCapacity] using h.capacity_pos
  · simpa only [ha.fragmentCapacity, ha.slotLen] using h.capacity_le
  · simpa only [ha.fragmentCapacity] using h.capacity_lt

omit [F64 F] in
theorem Holds.ackCumulative (h : Holds log r) (ack : Ack) :
    r.ackCumulative ack = r ∨ (r.ackCumulative ack = r.advanceBase (ack.cumulative r.channel) ∧
      Holds log (r.ackCumulative ack)) := by
  unfold SendRing.ackCumulative
  split_ifs with hc
  · right
    rw [Bool.and_eq_true, reportedCumulative] at hc
    rw [reportedCumulative]
    split_ifs at hc ⊢
    · exact ⟨rfl, h.advanceBase hc.1 hc.2⟩
    · rw [gt_eq, sgt] at hc
      simp at hc
  · exact .inl rfl

omit [F64 F] in
theorem accountLoop_sent (cumulative : UInt32) (i : Fin n) : ∀ (k : ℕ) (s : UInt32)
    (r : SendRing n F), ((accountLoop cumulative k s r).slot i).sent = (r.slot i).sent
  | 0, _, _ => rfl
  | k + 1, s, r => by
    unfold SendRing.accountLoop
    simp only
    split_ifs
    · rw [accountLoop_sent cumulative i k]
      simp only [update_apply]
      split_ifs with hi
      · rw [hi]
      · rfl
    · exact accountLoop_sent cumulative i k (s + 1) r
    · rfl

theorem trigger_between {t base next : UInt32} (hb : base.toNat ≤ next.toNat)
    (h1 : lt t base = false) (h2 : ge t next = false) :
    (base.toNat ≤ t.toNat ∧ t.toNat < next.toNat) ∨ base.toNat = next.toNat := by
  rw [lt, gt_eq, sgt, decide_eq_false_iff_not, toNat_sub] at h1
  rw [ge_eq, sge, decide_eq_false_iff_not, toNat_sub] at h2
  have := t.toNat_lt
  have := next.toNat_lt
  split_ifs at h1 h2 <;> omega

omit [NeZero n] [F64 F] in
theorem ackNack_eq (r : SendRing n F) (ack : Ack) :
    ∃ nackBelow, r.ackNack ack = { r with nackBelow } := by
  unfold ackNack
  split_ifs
  · exact ⟨_, rfl⟩
  · exact ⟨r.nackBelow, rfl⟩

theorem ackTrigger_eq (previous : UInt32) (r : SendRing n F) (ack : Ack) (nowMs : F) :
    ∃ slot, (ackTrigger previous r ack nowMs).1 = { r with slot } := by
  unfold ackTrigger
  split_ifs
  · exact ⟨r.slot, rfl⟩
  · exact ⟨r.slot, rfl⟩
  · simp only
    by_cases h : (!(r.slot (slotIndex n ack.triggerSeq)).occupied ||
        !(r.slot (slotIndex n ack.triggerSeq)).sent) = true
    · rw [if_pos h]
      exact ⟨r.slot, rfl⟩
    · rw [if_neg h]
      exact ⟨_, rfl⟩

theorem onAck_eq (r : SendRing n F) (ack : Ack) (nowMs : F) :
    ∃ slot nackBelow, (r.onAck ack nowMs).1 = { r.ackCumulative ack with slot, nackBelow } := by
  obtain ⟨nackBelow, hn⟩ := ackNack_eq (r.ackCumulative ack) ack
  obtain ⟨slot, hs⟩ := ackTrigger_eq r.base ((r.ackCumulative ack).ackNack ack) ack nowMs
  exact ⟨slot, nackBelow, by rw [SendRing.onAck, hs, hn]⟩

/-- What an acknowledgement may do to a ring: move the base to the acknowledged value, and retire
the fragment it names. -/
structure AckedBy (log : List Str) (ack : Ack) (r r' : SendRing n F) : Prop where
  holds : Holds log r'
  channel : r'.channel = r.channel
  fragmentCapacity : r'.fragmentCapacity = r.fragmentCapacity
  base : r'.base = r.base ∨ r'.base = ack.cumulative r.channel
  retired : ∀ q, r'.base.toNat ≤ q → q < log.length → SendSlot.retired (r'.slotAt q) = true →
    SendSlot.retired (r.slotAt q) = true ∨
      (ack.triggerChannel = r.channel ∧ ack.triggerSeq.toNat = q ∧ (r.slotAt q).sent = true)

omit [F64 F] in
theorem Holds.ackedBy_cumulative (h : Holds log r) (ack : Ack) :
    AckedBy log ack r (r.ackCumulative ack) ∧ r.base.toNat ≤ (r.ackCumulative ack).base.toNat ∧
      (r.ackCumulative ack).next = r.next ∧
      ∀ i, ((r.ackCumulative ack).slot i).sent = (r.slot i).sent := by
  rcases h.ackCumulative ack with he | ⟨he, hh⟩
  · rw [he]
    exact ⟨⟨h, rfl, rfl, .inl rfl, fun _ _ _ hr => .inl hr⟩, le_rfl, rfl, fun _ => rfl⟩
  · obtain ⟨ha, -⟩ := Kept.accountLoop (ack.cumulative r.channel)
      (ack.cumulative r.channel - r.base).toNat r.base r
    refine ⟨⟨hh, ?_, ?_, ?_, ?_⟩, ?_, ?_, ?_⟩
    · rw [he]
      exact ha.channel
    · rw [he]
      exact ha.fragmentCapacity
    · rw [he]
      exact .inr rfl
    · intro q _ _ hr
      rw [he] at hr
      exact .inl ((ha.retired _).symm.trans hr)
    · unfold SendRing.ackCumulative
      split_ifs with hc
      · rw [Bool.and_eq_true] at hc
        have hrep : r.reportedCumulative ack = ack.cumulative r.channel := by
          unfold reportedCumulative at hc ⊢
          split_ifs at hc ⊢
          · rfl
          · rw [gt_eq, sgt] at hc
            simp at hc
        exact (cumulative_between (h.base_le.trans h.cursor_le) hc.1 hc.2).1.le
      · exact le_rfl
    · rw [he]
      exact ha.next
    · intro i
      rw [he]
      exact accountLoop_sent _ i _ _ r

theorem Holds.onAck (h : Holds log r) (ack : Ack) (nowMs : F) :
    AckedBy log ack r (r.onAck ack nowMs).1 := by
  obtain ⟨hc, hb, hnx, hsent⟩ := h.ackedBy_cumulative ack
  have hn : AckedBy log ack r ((r.ackCumulative ack).ackNack ack) ∧
      ((r.ackCumulative ack).ackNack ack).slot = (r.ackCumulative ack).slot ∧
      ((r.ackCumulative ack).ackNack ack).next = r.next ∧
      ((r.ackCumulative ack).ackNack ack).base = (r.ackCumulative ack).base := by
    unfold ackNack
    split_ifs
    · exact ⟨⟨⟨hc.holds.next_eq, hc.holds.base_le, hc.holds.cursor_le, hc.holds.window,
        hc.holds.body, hc.holds.capacity_pos, hc.holds.capacity_le, hc.holds.capacity_lt⟩,
        hc.channel, hc.fragmentCapacity, hc.base, hc.retired⟩, rfl, hnx, rfl⟩
    · exact ⟨hc, rfl, hnx, rfl⟩
  unfold SendRing.onAck
  obtain ⟨hk, hslot, hnext, hbase⟩ := hn
  generalize (r.ackCumulative ack).ackNack ack = r₁ at hk hslot hnext hbase ⊢
  unfold ackTrigger
  split_ifs with h1 h2
  · exact hk
  · exact hk
  by_cases h3 : (!(r₁.slot (slotIndex n ack.triggerSeq)).occupied ||
      !(r₁.slot (slotIndex n ack.triggerSeq)).sent) = true
  · rw [if_pos h3]
    exact hk
  rw [if_neg h3]
  simp only [Bool.or_eq_true, Bool.not_eq_true', not_or, Bool.not_eq_false] at h3
  simp only [Bool.or_eq_true, not_or, Bool.not_eq_true] at h2
  -- only the named slot changes, and only in its `occupied` mark
  refine ⟨⟨hk.holds.next_eq, hk.holds.base_le, hk.holds.cursor_le, hk.holds.window, ?_,
    hk.holds.capacity_pos, hk.holds.capacity_le, hk.holds.capacity_lt⟩, hk.channel,
    hk.fragmentCapacity, hk.base, ?_⟩
  · intro q hq1 hq2
    refine (hk.holds.body q hq1 hq2).trans ?_
    simp only [slotAt, update_apply]
    split_ifs with he
    · rw [he]
    · rfl
  · intro q hq1 hq2 hr
    simp only [slotAt, update_apply] at hr
    split_ifs at hr with he
    · right
      rw [ne_eq, not_not, hk.channel] at h1
      rw [hnext] at h2
      have hbn := h.base_le.trans h.cursor_le
      have hw := h.window
      change r₁.base.toNat ≤ q at hq1
      rw [hbase] at hq1
      have hq3 : q < r.next.toNat := by rwa [h.next_eq]
      have ht : ack.triggerSeq.toNat = q := by
        rcases trigger_between hbn h2.1 h2.2 with ⟨h4, h5⟩ | h4
        · exact slot_inj (n := n) (congrArg Fin.val he).symm (by omega) (by omega)
        · omega
      refine ⟨h1, ht, ?_⟩
      rw [slotAt, ← hsent, ← hslot, he]
      exact h3.2
    · exact hk.retired q hq1 hq2 hr

/-! ## Queueing -/

theorem writeFragments_spec (m : Message) {c N : ℕ} (hc : 0 < c) (hc16 : c ≤ 2 ^ 16 - 1)
    (hn : fragmentCount m.totalLen c ≤ n) (hlt : N + fragmentCount m.totalLen c < 2 ^ 32) :
    ∀ (k a : ℕ) (r : SendRing n F), r.fragmentCapacity = c → c ≤ r.slotLen → r.next.toNat = N →
    a + k = fragmentCount m.totalLen c →
    ∃ slot, writeFragments m (List.range' a k) r = ({ r with slot }, none) ∧
      (∀ j, a ≤ j → j < a + k → (slot (Fin.ofNat n (N + j))).body = slice c m.stream j ∧
        (slot (Fin.ofNat n (N + j))).occupied = true ∧
        (slot (Fin.ofNat n (N + j))).sent = false) ∧
      ∀ x, (∀ j, a ≤ j → j < a + k → x ≠ Fin.ofNat n (N + j)) → slot x = r.slot x
  | 0, a, r, _, _, _, _ => ⟨r.slot, rfl, fun j _ _ => by omega, fun _ _ => rfl⟩
  | k + 1, a, r, hrc, hrs, hN, hak => by
    subst hrc
    have ha : a * r.fragmentCapacity < m.streamLen := (m.fragmentCount_spec hc a).mp (by omega)
    obtain ⟨last, hfrag⟩ := m.fragment_eq hc ha hrs
    have hlen := length_slice_le r.fragmentCapacity m.stream a
    have hidx : slotIndex n (r.next + UInt32.ofNat a) = Fin.ofNat n (N + a) := by
      rw [slotIndex, toNat_add_ofNat (by omega), hN]
    obtain ⟨slot, hw, hnew, hold⟩ := writeFragments_spec m hc hc16 hn hlt k (a + 1)
      { r with slot := update r.slot (Fin.ofNat n (N + a))
                { SendSlot.empty with
                  body := slice r.fragmentCapacity m.stream a, occupied := true, last := last } }
      rfl hrs hN (by omega)
    refine ⟨slot, ?_, ?_, ?_⟩
    · rw [List.range'_succ, writeFragments, if_neg (by omega), hfrag]
      simp only
      rw [if_neg (by omega), hidx]
      exact hw
    · intro j hj1 hj2
      rcases Nat.eq_or_lt_of_le hj1 with rfl | hj
      · -- the slot written now is not written again
        have hkeep := hold (Fin.ofNat n (N + a)) fun j hj3 hj4 he => by
          have := slot_inj (n := n) (congrArg Fin.val he) (by omega) (by omega)
          omega
        rw [hkeep]
        simp only [update_self]
        exact ⟨trivial, trivial, rfl⟩
      · exact hnew j hj (by omega)
    · intro x hx
      rw [hold x fun j hj1 hj2 => hx j (by omega) (by omega)]
      exact update_of_ne (hx a le_rfl (by omega)) _ _

theorem writeFragments_ok (m : Message) : ∀ (l : List ℕ) (r : SendRing n F),
    0 < r.fragmentCapacity → r.fragmentCapacity ≤ r.slotLen → r.fragmentCapacity ≤ 2 ^ 16 - 1 →
    (∀ i ∈ l, i < fragmentCount m.totalLen r.fragmentCapacity ∧ i < 2 ^ 32) →
    (writeFragments m l r).2 = none
  | [], _, _, _, _, _ => rfl
  | i :: l, r, hc, hs, h16, hl => by
    obtain ⟨hi, hi32⟩ := hl i List.mem_cons_self
    obtain ⟨last, hfrag⟩ := m.fragment_eq hc ((m.fragmentCount_spec hc i).mp hi) hs
    have hlen := length_slice_le r.fragmentCapacity m.stream i
    rw [writeFragments, if_neg (by omega), hfrag]
    simp only
    rw [if_neg (by omega)]
    exact writeFragments_ok m l _ hc hs h16 fun j hj => hl j (List.mem_cons_of_mem _ hj)

theorem writeFragments_eq (m : Message) : ∀ (l : List ℕ) (r : SendRing n F),
    ∃ slot, (writeFragments m l r).1 = { r with slot }
  | [], r => ⟨r.slot, rfl⟩
  | i :: l, r => by
    unfold writeFragments
    split_ifs
    · exact ⟨r.slot, rfl⟩
    · cases m.fragment i r.fragmentCapacity r.slotLen with
      | none => exact ⟨r.slot, rfl⟩
      | some out =>
        cases out with
        | error e => exact ⟨r.slot, rfl⟩
        | ok fragment =>
          simp only
          split_ifs
          · exact ⟨r.slot, rfl⟩
          · exact writeFragments_eq m l _

/-- What a successful `enqueue` leaves: the old window as it was, the new fragments held. -/
structure Enqueued (log : List Str) (m : Message) (r r' : SendRing n F) : Prop where
  holds : Holds (log ++ m.fragments r.fragmentCapacity) r'
  channel : r'.channel = r.channel
  base : r'.base = r.base
  fragmentCapacity : r'.fragmentCapacity = r.fragmentCapacity
  old : ∀ q, r.base.toNat ≤ q → q < log.length → r'.slotAt q = r.slotAt q
  new : ∀ q, log.length ≤ q → q < r'.next.toNat →
    (r'.slotAt q).occupied = true ∧ (r'.slotAt q).sent = false

theorem Holds.enqueue (h : Holds log r) (m : Message) :
    (r.windowFree < fragmentCount m.totalLen r.fragmentCapacity ∧ (r.enqueue m).1 = r ∧
        ∃ e, (r.enqueue m).2 = .error e) ∨
      ((∃ k, (r.enqueue m).2 = .ok k) ∧
        (log.length + fragmentCount m.totalLen r.fragmentCapacity < 2 ^ 32 →
          Enqueued log m r (r.enqueue m).1)) := by
  have hbn := h.base_le.trans h.cursor_le
  have hcl := h.cursor_le
  have hnx := h.next_eq
  have hin : r.inFlight.toNat = r.next.toNat - r.base.toNat := by
    rw [inFlight, toNat_sub, if_pos hbn]
  unfold SendRing.enqueue
  by_cases hfree : r.windowFree < fragmentCount m.totalLen r.fragmentCapacity
  · rw [if_pos hfree]
    exact .inl ⟨hfree, rfl, _, rfl⟩
  rw [if_neg hfree]
  have hw := h.window
  have hmax : fragmentCount m.totalLen r.fragmentCapacity < 2 ^ 32 := by
    rw [windowFree] at hfree
    omega
  have hok := writeFragments_ok m (List.range (fragmentCount m.totalLen r.fragmentCapacity)) r
    h.capacity_pos h.capacity_le h.capacity_lt fun i hi => by
      rw [List.mem_range] at hi
      omega
  right
  constructor
  · rw [← Prod.mk.eta (p := writeFragments m _ r), hok]
    simp only
    rw [if_neg (by omega)]
    exact ⟨_, rfl⟩
  intro hlt
  have hroom : r.next.toNat + fragmentCount m.totalLen r.fragmentCapacity ≤ r.base.toNat + n := by
    rw [windowFree, hin] at hfree
    omega
  obtain ⟨slot, hwrite, hnew, hold⟩ := writeFragments_spec m (N := r.next.toNat) h.capacity_pos
    h.capacity_lt (by omega) (by rwa [hnx]) (fragmentCount m.totalLen r.fragmentCapacity) 0 r rfl
    h.capacity_le rfl (Nat.zero_add _)
  rw [← List.range_eq_range'] at hwrite
  rw [hwrite]
  simp only
  rw [if_neg (by omega)]
  have hnext : (r.next + UInt32.ofNat (fragmentCount m.totalLen r.fragmentCapacity)).toNat =
      r.next.toNat + fragmentCount m.totalLen r.fragmentCapacity :=
    toNat_add_ofNat (by omega)
  have hkeep : ∀ q, r.base.toNat ≤ q → q < r.next.toNat →
      slot (Fin.ofNat n q) = r.slot (Fin.ofNat n q) := by
    intro q hq1 hq2
    refine hold _ fun j _ hj he => ?_
    have := slot_inj (n := n) (congrArg Fin.val he) (by omega) (by omega)
    omega
  refine ⟨{ h with next_eq := ?_, cursor_le := ?_, window := ?_, body := ?_ }, rfl, rfl, rfl,
    ?_, ?_⟩
  · simp [hnext, m.length_fragments, hnx]
  · simp only [hnext]
    omega
  · simp only [hnext]
    exact hroom
  · intro q hq1 hq2
    simp only [hnext] at hq1 hq2
    rcases Nat.lt_or_ge q r.next.toNat with hq | hq
    · rw [List.getElem?_append_left (by omega), h.body q hq1 hq]
      exact congrArg (fun s => some s.body) (hkeep q hq1 hq).symm
    · have hj := (hnew (q - r.next.toNat) (Nat.zero_le _) (by omega)).1
      rw [Nat.add_sub_cancel' hq] at hj
      rw [List.getElem?_append_right (by omega), ← hnx, Message.fragments, slices,
        List.getElem?_map, List.getElem?_range (by omega)]
      exact congrArg some hj.symm
  · intro q hq1 hq2
    exact hkeep q hq1 (by omega)
  · intro q hq1 hq2
    simp only [hnext] at hq2
    have hj := (hnew (q - r.next.toNat) (Nat.zero_le _) (by omega)).2
    rwa [Nat.add_sub_cancel' (by omega)] at hj

end Holds

end SendRing

end OpenStream.Lowlat
