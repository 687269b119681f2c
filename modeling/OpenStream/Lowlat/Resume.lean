import OpenStream.Lowlat.Calls
import OpenStream.Lowlat.SendRuns

/-!
# A call for output that finds its buffer short

A scan stops where a fragment is due whatever the buffer; only then is the fragment encoded. So a
call that fails for want of room leaves the session where the next one finds the same fragment.

* **`Session.getOutput_resume`**
-/

set_option linter.unusedSectionVars false

namespace OpenStream.Lowlat

open Bytes Function

variable {F : Type} [F64 F]

namespace SendRing

variable {n : ℕ} [NeZero n]
variable {r r' : SendRing n F} {k levelIndex : ℕ}

/-- The scan of `poll_send`: the ring where it stops, and whether a fragment is due there. -/
def seek (nowMs srttMs : F) (lv : Level F) : ℕ → SendRing n F → SendRing n F × Bool
  | 0, r => ({ r with nackBelow := none, cursor := r.base }, false)
  | k + 1, r =>
    if r.cursor = r.next then ({ r with nackBelow := none, cursor := r.base }, false)
    else
      let i := slotIndex n r.cursor
      let s := r.slot i
      if !s.occupied then seek nowMs srttMs lv k { r with cursor := r.cursor + 1 }
      else if OUTSTANDING_CAP ≤ r.outstanding then
        seek nowMs srttMs lv k { r.classify i nowMs srttMs lv with cursor := r.cursor + 1 }
      else if !r.due r.cursor s nowMs srttMs then
        let r' := if decide (0 < s.retransmits) || s.nackResent then
          { r with outstanding := satAdd 32 r.outstanding 1 } else r
        seek nowMs srttMs lv k { r'.classify i nowMs srttMs lv with cursor := r.cursor + 1 }
      else (r, true)

def encodeFound (nowMs srttMs : F) (lv : Level F) (outLen : ℕ) :
    SendRing n F × Bool → SendRing n F × Option (Except Error Data)
  | (r, false) => (r, none)
  | (r, true) =>
    match encodeData outLen r.packetAt with
    | .error error => (r, some (.error error))
    | .ok _ => (r.transmit nowMs srttMs lv, some (.ok r.packetAt))

variable {nowMs srttMs : F} {lv : Level F} {outLen : ℕ}

theorem pollLoop_eq_seek (k : ℕ) (r : SendRing n F) :
    pollLoop nowMs srttMs lv outLen k r =
      encodeFound nowMs srttMs lv outLen (seek nowMs srttMs lv k r) := by
  induction k generalizing r with
  | zero => rfl
  | succ k ih =>
    unfold pollLoop seek
    dsimp only
    split
    · rfl
    split
    · exact ih _
    split
    · exact ih _
    split
    · exact ih _
    · rfl

theorem seek_of_cap (k : ℕ) (h : OUTSTANDING_CAP ≤ r.outstanding) :
    (seek nowMs srttMs lv k r).2 = false := by
  induction k generalizing r with
  | zero => rfl
  | succ k ih =>
    unfold seek
    dsimp only
    split
    · rfl
    split
    · exact ih h
    · obtain ⟨stale, hclassify⟩ := r.classify_eq (slotIndex n r.cursor) nowMs srttMs lv
      rw [hclassify]
      exact ih h

theorem cap_of_seek (h : seek nowMs srttMs lv k r = (r', true)) :
    ¬ OUTSTANDING_CAP ≤ r.outstanding := by
  intro hfull
  cases (congrArg Prod.snd h).symm.trans (seek_of_cap k hfull)

/-- A fragment that is due at the cursor of a ring below its ceiling. -/
structure Found (nowMs srttMs : F) (r : SendRing n F) : Prop where
  pending : r.cursor ≠ r.next
  occupied : (r.slot (slotIndex n r.cursor)).occupied = true
  cap : ¬ OUTSTANDING_CAP ≤ r.outstanding
  due : r.due r.cursor (r.slot (slotIndex n r.cursor)) nowMs srttMs = true

theorem found_seek (h : seek nowMs srttMs lv k r = (r', true)) : Found nowMs srttMs r' := by
  induction k generalizing r with
  | zero => cases h
  | succ k ih =>
    unfold seek at h
    dsimp only at h
    split at h
    · cases h
    next hpending =>
    split at h
    · exact ih h
    next hoccupied =>
    split at h
    · exact ih h
    next hcap =>
    split at h
    · exact ih h
    next hdue =>
      cases h
      exact ⟨hpending, by simpa using hoccupied, hcap, by simpa using hdue⟩

theorem Found.seek (h : Found nowMs srttMs r) (k : ℕ) :
    seek nowMs srttMs lv (k + 1) r = (r, true) := by
  unfold SendRing.seek
  simp [h.pending, h.occupied, h.cap, h.due]

theorem Found.fuel (h : Found nowMs srttMs r) : ∃ k, (r.next - r.cursor).toNat = k + 1 := by
  refine Nat.exists_eq_succ_of_ne_zero fun hzero => h.pending ?_
  have hsub : r.next - r.cursor = 0 := UInt32.toNat_inj.mp hzero
  rw [← UInt32.sub_add_cancel r.next r.cursor, hsub, UInt32.zero_add]

/-! ## The look-ahead -/

theorem due_congr (h : r'.nackBelow = r.nackBelow) (q : UInt32)
    (s : SendSlot F) : r'.due q s nowMs srttMs = r.due q s nowMs srttMs := by
  unfold due nacked
  rw [h]

theorem dueLoop_congr (hslot : r'.slot = r.slot) (hnext : r'.next = r.next)
    (hnack : r'.nackBelow = r.nackBelow)
    (hcap : OUTSTANDING_CAP ≤ r'.outstanding ↔ OUTSTANDING_CAP ≤ r.outstanding) (k : ℕ)
    (cursor : UInt32) : r'.dueLoop nowMs srttMs k cursor = r.dueLoop nowMs srttMs k cursor := by
  induction k generalizing cursor with
  | zero => rfl
  | succ k ih =>
    unfold dueLoop
    simp [hslot, hnext, hcap, due_congr hnack, ih]

theorem Found.dueLoop (h : Found nowMs srttMs r) (k : ℕ) : r.dueLoop nowMs srttMs (k + 1) r.cursor =
      some (HEADER_LEN + (r.slot (slotIndex n r.cursor)).body.length) := by
  unfold SendRing.dueLoop
  simp [h.pending, h.occupied, h.cap, h.due]

theorem dueLoop_seek (h : seek nowMs srttMs lv k r = (r', true)) :
    r.dueLoop nowMs srttMs k r.cursor =
      some (HEADER_LEN + (r'.slot (slotIndex n r'.cursor)).body.length) := by
  induction k generalizing r with
  | zero => cases h
  | succ k ih =>
    have hcap := cap_of_seek h
    -- the rest of the scan runs over a ring that differs in nothing the look-ahead reads
    have hrest {r₁ : SendRing n F} (h₁ : seek nowMs srttMs lv k r₁ = (r', true))
        (hslot : r₁.slot = r.slot) (hnext : r₁.next = r.next) (hnack : r₁.nackBelow = r.nackBelow)
        (hcursor : r₁.cursor = r.cursor + 1) :
        r.dueLoop nowMs srttMs k (r.cursor + 1) =
          some (HEADER_LEN + (r'.slot (slotIndex n r'.cursor)).body.length) := by
      rw [← ih h₁, hcursor]
      exact (dueLoop_congr hslot hnext hnack (iff_of_false (cap_of_seek h₁) hcap) k _).symm
    unfold seek at h
    unfold SendRing.dueLoop
    dsimp only at h ⊢
    split at h
    · cases h
    next hpending =>
    rw [if_neg hpending]
    split at h
    · next hfree =>
      rw [if_pos hfree]
      exact hrest h rfl rfl rfl rfl
    next hoccupied =>
    rw [if_neg hoccupied, if_neg hcap]
    split at h
    · next hlater =>
      rw [if_neg (by simpa using hlater)]
      obtain ⟨stale, hclassify⟩ := classify_eq
        (if decide (0 < (r.slot (slotIndex n r.cursor)).retransmits) ||
            (r.slot (slotIndex n r.cursor)).nackResent then
          { r with outstanding := satAdd 32 r.outstanding 1 } else r)
        (slotIndex n r.cursor) nowMs srttMs lv
      rw [hclassify] at h
      refine hrest h ?_ ?_ ?_ rfl
      · dsimp only
        split <;> rfl
      · dsimp only
        split <;> rfl
      · dsimp only
        split <;> rfl
    · next hnow =>
      cases h
      rw [if_pos (by simpa using hnow)]

/-! ## A scan that was refused -/

theorem pollSend_resume {error : Error}
    (h : r.pollSend nowMs srttMs levelIndex outLen = (r', some (.error error))) (big : ℕ) :
    r'.pollSend nowMs srttMs levelIndex big = r.pollSend nowMs srttMs levelIndex big ∧
      r'.nextDueLen nowMs srttMs = r.nextDueLen nowMs srttMs := by
  unfold pollSend at h ⊢
  rw [pollLoop_eq_seek] at h
  simp only [pollLoop_eq_seek, nextDueLen]
  generalize hsought : seek nowMs srttMs (level F levelIndex) (r.next - r.cursor).toNat r = sought
    at h ⊢
  obtain ⟨r₁, found⟩ := sought
  cases found with
  | false => cases h
  | true =>
    have hr : r' = r₁ := by
      unfold encodeFound at h
      split at h
      · cases h
      next heq =>
      cases heq
      split at h <;> cases h
      rfl
    subst hr
    have hfound := found_seek hsought
    obtain ⟨k, hk⟩ := hfound.fuel
    rw [hk, hfound.seek, hfound.dueLoop, dueLoop_seek hsought]
    exact ⟨rfl, rfl⟩

theorem pollSend_none (h : r.pollSend nowMs srttMs levelIndex outLen = (r', none)) (big : ℕ) :
    r.pollSend nowMs srttMs levelIndex big = (r', none) := by
  unfold pollSend at h ⊢
  rw [pollLoop_eq_seek] at h ⊢
  generalize seek nowMs srttMs (level F levelIndex) (r.next - r.cursor).toNat r = sought at h ⊢
  obtain ⟨r₁, found⟩ := sought
  cases found with
  | false => exact h
  | true =>
    simp only [encodeFound] at h
    split at h <;> cases h

theorem length_pollSend_le {data : Data}
    (h : r.pollSend nowMs srttMs levelIndex outLen = (r', some (.ok data))) :
    data.bytes.length ≤ outLen := by
  unfold pollSend at h
  rw [pollLoop_eq_seek] at h
  generalize seek nowMs srttMs (level F levelIndex) (r.next - r.cursor).toNat r = sought at h
  obtain ⟨r₁, found⟩ := sought
  cases found with
  | false => cases h
  | true =>
    simp only [encodeFound, encodeData] at h
    split_ifs at h with hmax hroom
    · cases h
    · cases h
    · cases h
      rw [Data.length_bytes]
      exact Nat.le_of_not_lt hroom

end SendRing

namespace SendChannel

variable {nowMs srttMs : F} {levelIndex outLen : ℕ} {c c' : SendChannel F}

theorem pollSend_resume {error : Error}
    (h : c.pollSend nowMs srttMs levelIndex outLen = (c', some (.error error))) (big : ℕ) :
    c'.pollSend nowMs srttMs levelIndex big = c.pollSend nowMs srttMs levelIndex big ∧
      c'.nextDueLen nowMs srttMs = c.nextDueLen nowMs srttMs := by
  obtain ⟨slots, nonzero, ring, bounded⟩ := c
  cases congrArg Prod.fst h
  have hout := congrArg Prod.snd h
  obtain ⟨hpoll, hdue⟩ := SendRing.pollSend_resume (Prod.ext rfl hout) big
  exact ⟨by simp only [pollSend, hpoll], hdue⟩

theorem pollSend_none (h : c.pollSend nowMs srttMs levelIndex outLen = (c', none)) (big : ℕ) :
    c.pollSend nowMs srttMs levelIndex big = (c', none) := by
  have hout : (c.ring.pollSend nowMs srttMs levelIndex outLen).2 = none := congrArg Prod.snd h
  have hring := SendRing.pollSend_none (Prod.ext rfl hout) big
  cases congrArg Prod.fst h
  simp [pollSend, hring]

theorem length_pollSend_le {data : Data}
    (h : c.pollSend nowMs srttMs levelIndex outLen = (c', some (.ok data))) :
    data.bytes.length ≤ outLen := by
  have hout : (c.ring.pollSend nowMs srttMs levelIndex outLen).2 = some (.ok data) :=
    congrArg Prod.snd h
  exact SendRing.length_pollSend_le (Prod.ext rfl hout)

end SendChannel

/-! ## The session -/

namespace Session

variable {n : ℕ} [NeZero n] {F : Type} [Double F] {s s' : Session n F} {nowMs : F} {outLen : ℕ}
variable {cleartext : Str} {channel : Channel} {big : ℕ}

theorem seal_fits (hroom : ENVELOPE_LEN ≤ outLen) (h : cleartext.length ≤ outLen - ENVELOPE_LEN) :
    (s.seal_ cleartext outLen).2 ≠ .error .bufferTooSmall := by
  unfold seal_ Envelope.sealInPlace
  split
  · simp
  dsimp only
  rw [if_neg (by omega : ¬ outLen < cleartext.length + ENVELOPE_LEN)]
  split
  · simp
  · split <;> simp

theorem release_fits {data : Data} (hroom : ENVELOPE_LEN ≤ outLen)
    (h : data.bytes.length ≤ outLen - ENVELOPE_LEN) :
    (s.release channel data nowMs outLen).2 ≠ .error .bufferTooSmall := by
  have hseal := seal_fits (s := s) hroom h
  unfold release
  split
  · next heq =>
    rw [heq] at hseal
    exact hseal
  · simp

theorem emit_short {encode : ℕ → Except Error Str}
    (hlen : ∀ room cleartext, encode room = .ok cleartext → cleartext.length ≤ room)
    (h : s.emit encode outLen = (s', .error .bufferTooSmall)) : s' = s := by
  unfold emit at h
  split at h
  · cases h
    rfl
  next hroom =>
    split at h
    · cases h
      rfl
    · next cleartext hencode =>
      have hfits := seal_fits (s := s) (Nat.le_of_not_lt hroom) (hlen _ _ hencode)
      rw [h] at hfits
      exact absurd rfl hfits

theorem not_mem_drop_drainOrder {position : ℕ}
    (h : DRAIN_ORDER[position]? = some channel) : channel ∉ DRAIN_ORDER.drop (position + 1) := by
  have hnodup : (DRAIN_ORDER.drop position).Nodup :=
    (by decide : DRAIN_ORDER.Nodup).sublist (List.drop_sublist _ _)
  rw [List.drop_eq_getElem?_toList_append, h] at hnodup
  exact (List.nodup_cons.mp hnodup).1

theorem hasDueAfter_update (h : DRAIN_ORDER[s.drainChannel]? = some channel)
    (ring : Option (SendChannel F)) :
    hasDueAfter { s with send := update s.send channel ring } s.drainChannel nowMs =
      s.hasDueAfter s.drainChannel nowMs := by
  unfold hasDueAfter
  rw [Bool.eq_iff_iff, List.any_eq_true, List.any_eq_true]
  refine exists_congr fun c => and_congr_right fun hc => ?_
  have hne : c ≠ channel := by
    rintro rfl
    exact not_mem_drop_drainOrder h hc
  simp [dueLen, update_of_ne hne]

/-- What a failed call leaves: no feedback has gone, and the pass is where it was. -/
structure Waits (s s' : Session n F) : Prop where
  half : s'.half = s.half
  probeAck : s'.pendingProbeAck = s.pendingProbeAck
  started : s'.drainStarted = s.drainStarted

/-- A channel's turn in the drain: it has a ring with a fragment that nothing holds back. -/
structure Turn (nowMs : F) (s : Session n F) (channel : Channel) (ring : SendChannel F) : Prop where
  position : DRAIN_ORDER[s.drainChannel]? = some channel
  attached : s.send channel = some ring
  open_ : ∃ cleartextLen, ring.nextDueLen nowMs s.srttMs = some cleartextLen ∧
    s.yields channel (ENVELOPE_LEN + cleartextLen) nowMs = false ∧
    (s.paced channel && !s.pacer.canConsume nowMs (ENVELOPE_LEN + cleartextLen)) = false

def turn (nowMs : F) (outLen k : ℕ) (s : Session n F) (channel : Channel) (ring : SendChannel F) :
    Session n F × Option (Except Error Str) :=
  if outLen < ENVELOPE_LEN then (s, some (.error .bufferTooSmall))
  else
    match ring.pollSend nowMs s.srttMs s.level (outLen - ENVELOPE_LEN) with
    | (ring, some (.ok data)) =>
      let s := { s with send := Function.update s.send channel (some ring) }
      ((s.release channel data nowMs outLen).1, some (s.release channel data nowMs outLen).2)
    | (ring, some (.error error)) =>
      ({ s with send := Function.update s.send channel (some ring) }, some (.error error))
    | (ring, none) =>
      drain nowMs outLen k
        { s with
          drainChannel := s.drainChannel + 1, send := Function.update s.send channel (some ring) }

theorem Turn.drain {ring : SendChannel F} (h : Turn nowMs s channel ring)
    (k : ℕ) : drain nowMs outLen (k + 1) s = turn nowMs outLen k s channel ring := by
  obtain ⟨cleartextLen, hdue, hyields, hheld⟩ := h.open_
  have hdue : s.dueLen channel nowMs = some cleartextLen := by
    rw [dueLen, h.attached]
    exact hdue
  simp only [Session.drain, h.position, h.attached, hdue, hyields, hheld, turn]
  rfl

theorem Turn.resume {ring ring' : SendChannel F} (h : Turn nowMs s channel ring)
    (hdue : ring'.nextDueLen nowMs s.srttMs = ring.nextDueLen nowMs s.srttMs) :
    Turn nowMs { s with send := update s.send channel (some ring') } channel ring' := by
  obtain ⟨cleartextLen, hlen, hyields, hheld⟩ := h.open_
  refine ⟨h.position, update_self _ _ _, cleartextLen, hdue.trans hlen, ?_, hheld⟩
  unfold yields at hyields ⊢
  rw [hasDueAfter_update h.position]
  exact hyields

theorem turn_resume {ring ring' : SendChannel F} (hbig : ENVELOPE_LEN ≤ big)
    (h : ring'.pollSend nowMs s.srttMs s.level (big - ENVELOPE_LEN) =
      ring.pollSend nowMs s.srttMs s.level (big - ENVELOPE_LEN)) (k : ℕ) :
    turn nowMs big k { s with send := update s.send channel (some ring') } channel ring' =
      turn nowMs big k s channel ring := by
  unfold turn
  rw [if_neg (Nat.not_lt.mpr hbig), if_neg (Nat.not_lt.mpr hbig)]
  simp [h, update_idem]

/-- **A drain that failed for want of room goes on as if it had not been begun.** -/
theorem drain_resume (hbig : ENVELOPE_LEN ≤ big) (k : ℕ) (hk : k = CHANNEL_COUNT - s.drainChannel)
    (h : drain nowMs outLen k s = (s', some (.error .bufferTooSmall))) :
    drain nowMs big (CHANNEL_COUNT - s'.drainChannel) s' = drain nowMs big k s ∧ Waits s s' := by
  induction k generalizing s with
  | zero => cases h
  | succ k ih =>
    have hnext {s₁ : Session n F} (hposition : s₁.drainChannel = s.drainChannel + 1)
        (hwaits : Waits s s₁)
        (h₁ : drain nowMs outLen k s₁ = (s', some (.error .bufferTooSmall))) :
        drain nowMs big (CHANNEL_COUNT - s'.drainChannel) s' = drain nowMs big k s₁ ∧
          Waits s s' := by
      obtain ⟨heq, hrest⟩ := ih (by omega) h₁
      exact ⟨heq, hrest.half.trans hwaits.half, hrest.probeAck.trans hwaits.probeAck,
        hrest.started.trans hwaits.started⟩
    cases hchannel : DRAIN_ORDER[s.drainChannel]? with
    | none => simp [drain, hchannel] at h
    | some channel =>
    cases hring : s.send channel with
    | none =>
      simp only [drain, hchannel, hring] at h ⊢
      exact hnext rfl ⟨rfl, rfl, rfl⟩ h
    | some ring =>
    cases hdue : s.dueLen channel nowMs with
    | none =>
      simp only [drain, hchannel, hring, hdue] at h ⊢
      exact hnext rfl ⟨rfl, rfl, rfl⟩ h
    | some cleartextLen =>
    cases hyields : s.yields channel (ENVELOPE_LEN + cleartextLen) nowMs with
    | true =>
      simp only [drain, hchannel, hring, hdue, hyields, if_true] at h ⊢
      exact hnext rfl ⟨rfl, rfl, rfl⟩ h
    | false =>
    cases hheld : s.paced channel && !s.pacer.canConsume nowMs (ENVELOPE_LEN + cleartextLen) with
    | true =>
      simp only [drain, hchannel, hring, hdue, hyields, hheld, if_true] at h
      cases h
    | false =>
    have hlen : ring.nextDueLen nowMs s.srttMs = some cleartextLen := by
      rw [dueLen, hring] at hdue
      exact hdue
    have hturn : Turn nowMs s channel ring := ⟨hchannel, hring, cleartextLen, hlen, hyields, hheld⟩
    rw [hturn.drain] at h ⊢
    unfold turn at h
    split at h
    · cases h
      rw [← hk, hturn.drain]
      exact ⟨rfl, rfl, rfl, rfl⟩
    next hroom =>
    split at h
    · next data hpoll =>
      refine absurd (Option.some.inj (congrArg Prod.snd h)) ?_
      exact release_fits (Nat.le_of_not_lt hroom) (SendChannel.length_pollSend_le hpoll)
    · next ring' error hpoll =>
      obtain ⟨hagain, hsame⟩ := SendChannel.pollSend_resume hpoll (big - ENVELOPE_LEN)
      cases h
      refine ⟨?_, rfl, rfl, rfl⟩
      rw [← hk, (hturn.resume hsame).drain]
      exact turn_resume hbig hagain k
    · next ring' hpoll =>
      have hpoll := SendChannel.pollSend_none hpoll (big - ENVELOPE_LEN)
      unfold turn
      rw [if_neg (Nat.not_lt.mpr hbig), hpoll]
      exact hnext rfl ⟨rfl, rfl, rfl⟩ h

theorem beginDrain_started (h : s.drainStarted = true) : s.beginDrain = s := if_pos h

theorem started_beginDrain (s : Session n F) : s.beginDrain.drainStarted = true := by
  unfold beginDrain
  split
  · next h => exact h
  · rfl

theorem length_encodeAck_le {ack : Ack} {room : ℕ}
    (h : encodeAck ack room = .ok cleartext) : cleartext.length ≤ room := by
  rw [length_encodeAck h]
  unfold encodeAck at h
  split_ifs at h with hnack hroom
  exact Nat.le_of_not_lt hroom

theorem length_encodeProbeAck_le {ack : Packet.ProbeAck} {room : ℕ}
    (h : encodeProbeAck ack room = .ok cleartext) : cleartext.length ≤ room := by
  rw [length_encodeProbeAck h]
  unfold encodeProbeAck at h
  split_ifs at h with hsize hroom
  exact Nat.le_of_not_lt hroom

theorem length_encodeProbe {probe : Packet.Probe} {room : ℕ}
    (h : encodeProbe probe room = .ok cleartext) :
    cleartext.length = probe.size - ENVELOPE_LEN ∧ probe.size - ENVELOPE_LEN ≤ room := by
  unfold encodeProbe at h
  split_ifs at h with hbad hroom
  cases h
  have hsize : probeSize probe.size = true := by
    rw [not_or] at hbad
    simpa using hbad.2
  have hlow : 1229 ≤ probe.size := by
    simp only [probeSize, Bool.and_eq_true, decide_eq_true_eq] at hsize
    exact hsize.1
  refine ⟨?_, Nat.le_of_not_lt hroom⟩
  simp only [List.length_append, length_headerBytes, length_be, List.length_replicate]
  simp only [ENVELOPE_LEN, HEADER_LEN]
  omega

theorem getOutput_of_started (s : Session n F) : s.beginDrain.getOutput nowMs outLen =
    s.getOutput nowMs outLen := by
  unfold getOutput
  rw [beginDrain_started s.started_beginDrain]

theorem getOutput_drain (hstarted : s.drainStarted = true) (hack : s.half.ackDue = false)
    (hprobe : s.pendingProbeAck = none) :
    s.getOutput nowMs outLen = drain nowMs outLen (CHANNEL_COUNT - s.drainChannel) s := by
  unfold getOutput
  simp only [beginDrain_started hstarted, hack, hprobe]
  rfl

theorem resume_of_started (hbig : ENVELOPE_LEN ≤ big) (hstarted : s.drainStarted = true)
    (h : s.getOutput nowMs outLen = (s', some (.error .bufferTooSmall))) :
    s'.getOutput nowMs big = s.getOutput nowMs big ∧ s'.half = s.half ∧
      s'.pendingProbeAck = s.pendingProbeAck := by
  cases hack : s.half.ackDue with
  | true =>
    simp only [getOutput, beginDrain_started hstarted, hack, if_true] at h
    split at h
    · next heq =>
      cases h
      rw [emit_short (fun _ _ => length_encodeAck_le) heq]
      exact ⟨rfl, rfl, rfl⟩
    · cases h
  | false =>
    cases hprobe : s.pendingProbeAck with
    | some ack =>
      simp only [getOutput, beginDrain_started hstarted, hack, hprobe, Bool.false_eq_true,
        if_false] at h
      split at h
      · next heq =>
        cases h
        rw [emit_short (fun _ _ => length_encodeProbeAck_le) heq]
        exact ⟨rfl, rfl, hprobe⟩
      · cases h
    | none =>
      rw [getOutput_drain hstarted hack hprobe] at h ⊢
      obtain ⟨heq, hwaits⟩ := drain_resume hbig _ rfl h
      refine ⟨?_, hwaits.half, hwaits.probeAck.trans hprobe⟩
      rw [← heq]
      exact getOutput_drain (hwaits.started.trans hstarted) (by rw [hwaits.half, hack])
        (hwaits.probeAck.trans hprobe)

/-- **A call that failed for want of room goes on as if it had not been made.** -/
theorem getOutput_resume (hbig : ENVELOPE_LEN ≤ big)
    (h : s.getOutput nowMs outLen = (s', some (.error .bufferTooSmall))) :
    s'.getOutput nowMs big = s.getOutput nowMs big ∧ s'.half = s.half ∧
      s'.pendingProbeAck = s.pendingProbeAck := by
  rw [← getOutput_of_started] at h
  obtain ⟨heq, hhalf, hprobe⟩ := resume_of_started hbig s.started_beginDrain h
  rw [← getOutput_of_started s, heq, hhalf, hprobe]
  unfold beginDrain
  split <;> exact ⟨rfl, rfl, rfl⟩

end Session

end OpenStream.Lowlat
