import OpenStream.Lowlat.SendWindow

/-!
# Send rings of a session

A session holds up to nineteen send rings, each with its own number of slots and its own capacity.

* `SendRing.nextDueLen`: the look-ahead of the pacer, which changes nothing.
* `SendRing.Sheds`: what scans and acknowledgements do to a ring: fragments go, none comes.
-/

namespace OpenStream.Lowlat

open Bytes

variable {F : Type} [F64 F]

namespace SendRing

variable {n : ℕ} [NeZero n]

/-! ## The look-ahead -/

/-- The scan of `next_due_len`. -/
def dueLoop (r : SendRing n F) (nowMs srttMs : F) : ℕ → UInt32 → Option ℕ
  | 0, _ => none
  | k + 1, cursor =>
    if cursor = r.next then none
    else
      let s := r.slot (slotIndex n cursor)
      if !s.occupied then dueLoop r nowMs srttMs k (cursor + 1)
      else if OUTSTANDING_CAP ≤ r.outstanding then none
      else if r.due cursor s nowMs srttMs then some (HEADER_LEN + s.body.length)
      else dueLoop r nowMs srttMs k (cursor + 1)

variable (r : SendRing n F)

def nextDueLen (nowMs srttMs : F) : Option ℕ :=
  r.dueLoop nowMs srttMs (r.next - r.cursor).toNat r.cursor

/-! ## Fragments that go -/

/-- Sequence numbers and sizes stay, and no fragment comes. -/
structure Sheds (r r' : SendRing n F) : Prop where
  slotLen : r'.slotLen = r.slotLen
  fragmentCapacity : r'.fragmentCapacity = r.fragmentCapacity
  next : r'.next = r.next
  held : ∀ i, (r'.slot i).occupied = true →
    (r.slot i).occupied = true ∧ (r'.slot i).body = (r.slot i).body

section Sheds

variable {r r' r'' : SendRing n F}

omit [NeZero n] [F64 F]

theorem Sheds.refl (r : SendRing n F) : Sheds r r := ⟨rfl, rfl, rfl, fun _ h => ⟨h, rfl⟩⟩

theorem Sheds.trans (h : Sheds r r') (h' : Sheds r' r'') : Sheds r r'' where
  slotLen := h'.slotLen.trans h.slotLen
  fragmentCapacity := h'.fragmentCapacity.trans h.fragmentCapacity
  next := h'.next.trans h.next
  held i hi := by
    obtain ⟨h1, h2⟩ := h'.held i hi
    obtain ⟨h3, h4⟩ := h.held i h1
    exact ⟨h3, h2.trans h4⟩

theorem Sheds.of_slot (hl : r'.slotLen = r.slotLen) (hf : r'.fragmentCapacity = r.fragmentCapacity)
    (hn : r'.next = r.next) (hs : r'.slot = r.slot) : Sheds r r' :=
  ⟨hl, hf, hn, fun i hi => by rw [hs] at hi ⊢; exact ⟨hi, rfl⟩⟩

theorem Sheds.update (i : Fin n) {s : SendSlot F}
    (hs : s.occupied = true → (r.slot i).occupied = true ∧ s.body = (r.slot i).body) :
    Sheds r { r with slot := Function.update r.slot i s } := by
  refine ⟨rfl, rfl, rfl, fun j hj => ?_⟩
  simp only [Function.update_apply] at hj ⊢
  split_ifs at hj ⊢ with hji
  · rw [hji]
    exact hs hj
  · exact ⟨hj, rfl⟩

end Sheds

/-! ## What the operations do -/

omit [NeZero n] in
theorem classify_slot (i : Fin n) (nowMs srttMs : F) (lv : Level F) :
    (r.classify i nowMs srttMs lv).slot = r.slot := by
  simp only [classify]
  split_ifs <;> rfl

omit [NeZero n] in
theorem sheds_classify (i : Fin n) (nowMs srttMs : F) (lv : Level F) :
    Sheds r (r.classify i nowMs srttMs lv) :=
  have h := Kept.classify r i nowMs srttMs lv
  .of_slot h.slotLen h.fragmentCapacity h.next (classify_slot r i nowMs srttMs lv)

theorem transmit_slot (nowMs srttMs : F) (lv : Level F) :
    (r.transmit nowMs srttMs lv).slot = Function.update r.slot (slotIndex n r.cursor)
      (SendSlot.transmitted (r.slot (slotIndex n r.cursor))
        (r.nacked r.cursor (r.slot (slotIndex n r.cursor))) nowMs) :=
  classify_slot _ _ nowMs srttMs lv

theorem sheds_transmit (nowMs srttMs : F) (lv : Level F) :
    Sheds r (r.transmit nowMs srttMs lv) := by
  have hsent : Sheds r { r with slot := (r.transmit nowMs srttMs lv).slot } := by
    rw [transmit_slot]
    refine Sheds.update _ fun ho => ?_
    unfold SendSlot.transmitted at ho ⊢
    split_ifs at ho ⊢ <;> exact ⟨ho, rfl⟩
  exact ⟨(Kept.classify _ _ nowMs srttMs lv).slotLen,
    (Kept.classify _ _ nowMs srttMs lv).fragmentCapacity, (Kept.classify _ _ nowMs srttMs lv).next,
    hsent.held⟩

theorem sheds_pollLoop (nowMs srttMs : F) (lv : Level F) (outLen : ℕ) :
    ∀ (k : ℕ) (r : SendRing n F), Sheds r (pollLoop nowMs srttMs lv outLen k r).1
  | 0, r => .of_slot rfl rfl rfl rfl
  | k + 1, r => by
    have hgo (r' : SendRing n F) (h : Sheds r r') :
        Sheds r (pollLoop nowMs srttMs lv outLen k r').1 :=
      h.trans (sheds_pollLoop nowMs srttMs lv outLen k r')
    have hclass (r' : SendRing n F) (i : Fin n) (h : Sheds r r') :
        Sheds r { r'.classify i nowMs srttMs lv with cursor := r.cursor + 1 } :=
      h.trans ((sheds_classify r' i nowMs srttMs lv).trans (.of_slot rfl rfl rfl rfl))
    unfold pollLoop
    simp only
    split
    · exact .of_slot rfl rfl rfl rfl
    split
    · exact hgo _ (.of_slot rfl rfl rfl rfl)
    split
    · exact hgo _ (hclass r _ (.refl r))
    split
    · refine hgo _ (hclass _ _ ?_)
      split_ifs
      · exact .of_slot rfl rfl rfl rfl
      · exact .refl r
    · split
      · exact .refl r
      · exact sheds_transmit r nowMs srttMs lv

theorem sheds_pollSend (nowMs srttMs : F) (levelIndex outLen : ℕ) :
    Sheds r (r.pollSend nowMs srttMs levelIndex outLen).1 :=
  sheds_pollLoop nowMs srttMs (level F levelIndex) outLen _ r

omit [F64 F] in
theorem sheds_accountLoop (cumulative : UInt32) : ∀ (k : ℕ) (sequence : UInt32) (r : SendRing n F),
    Sheds r (accountLoop cumulative k sequence r)
  | 0, _, r => .refl r
  | k + 1, sequence, r => by
    unfold accountLoop
    split
    · refine Sheds.trans ?_ (sheds_accountLoop cumulative k (sequence + 1) _)
      split
      · refine (Sheds.update (slotIndex n sequence) fun ho => ?_).trans (.of_slot rfl rfl rfl rfl)
        exact ⟨ho, rfl⟩
      · exact .refl r
    · exact .refl r

theorem sheds_onAck (ack : Ack) (nowMs : F) : Sheds r (r.onAck ack nowMs).1 := by
  have hbase : Sheds r (r.ackCumulative ack) := by
    unfold ackCumulative
    split_ifs
    · exact (sheds_accountLoop _ _ r.base r).trans (.of_slot rfl rfl rfl rfl)
    · exact .refl r
  have hnack : Sheds (r.ackCumulative ack) ((r.ackCumulative ack).ackNack ack) := by
    obtain ⟨nackBelow, hn⟩ := ackNack_eq (r.ackCumulative ack) ack
    rw [hn]
    exact .of_slot rfl rfl rfl rfl
  refine (hbase.trans hnack).trans ?_
  unfold SendRing.onAck ackTrigger
  simp only
  split
  · exact .refl _
  split
  · exact .refl _
  split
  · exact .refl _
  · exact Sheds.update _ fun ho => by cases ho

end SendRing

/-! ## Rings of any size -/

/-- A ring with its number of slots. -/
structure SendChannel (F : Type) where
  slots : ℕ
  nonzero : NeZero slots
  ring : SendRing slots F

namespace SendChannel

attribute [instance] SendChannel.nonzero

variable (c : SendChannel F)

def fragmentCapacity : ℕ := c.ring.fragmentCapacity

def canSetFragmentCapacity (capacity : ℕ) : Bool := c.ring.canSetFragmentCapacity capacity

def setFragmentCapacity (capacity : ℕ) : SendChannel F × Bool :=
  (⟨c.slots, c.nonzero, (c.ring.setFragmentCapacity capacity).1⟩,
    (c.ring.setFragmentCapacity capacity).2)

def discardPending : SendChannel F × UInt32 :=
  (⟨c.slots, c.nonzero, c.ring.discardPending.1⟩, c.ring.discardPending.2)

def enqueue (message : Message) : SendChannel F × Except Error ℕ :=
  (⟨c.slots, c.nonzero, (c.ring.enqueue message).1⟩, (c.ring.enqueue message).2)

def onAck (ack : Ack) (nowMs : F) : SendChannel F × Option F :=
  (⟨c.slots, c.nonzero, (c.ring.onAck ack nowMs).1⟩, (c.ring.onAck ack nowMs).2)

def beginPass : SendChannel F :=
  ⟨c.slots, c.nonzero, c.ring.beginPass⟩

def pollSend (nowMs srttMs : F) (levelIndex outLen : ℕ) :
    SendChannel F × Option (Except Error Data) :=
  (⟨c.slots, c.nonzero, (c.ring.pollSend nowMs srttMs levelIndex outLen).1⟩,
    (c.ring.pollSend nowMs srttMs levelIndex outLen).2)

def nextDueLen (nowMs srttMs : F) : Option ℕ := c.ring.nextDueLen nowMs srttMs

end SendChannel

end OpenStream.Lowlat
