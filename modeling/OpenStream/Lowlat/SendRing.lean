import OpenStream.Lowlat.RecvRing

/-!
# The send ring

Fragments wait in `[base, next)`; `base` is the peer's cumulative acknowledgement and `cursor` is
where the scan has reached. A slot is `occupied` until an acknowledgement names it, and `sent` once
it has been on the wire.

* `SendRing.onAck`: apply an acknowledgement, by its cumulative value and by the fragment it names.

Times and round trips are `f64` in the source; the definitions take any `F64`.
-/

namespace OpenStream.Lowlat

open Bytes

structure Level (F : Type) where
  rttMult : F
  baseMs : F
  staleRatio : F

section Tuning

variable (F : Type) [F64 F]

def DEFAULT_LEVEL : Level F := ⟨1.1, 20.0, 0.15⟩

/-- Resolve a level index, falling back to the default. -/
def level : ℕ → Level F
  | 0 => ⟨0.0, 0.0, 0.0⟩
  | 1 => DEFAULT_LEVEL F
  | 2 => ⟨1.5, 50.0, 0.35⟩
  | _ => DEFAULT_LEVEL F

end Tuning

def OUTSTANDING_CAP : ℕ := 100

/-- Addition that stops at the top of `w` bits. -/
def satAdd (w a b : ℕ) : ℕ := min (a + b) (2 ^ w - 1)

/-- Bookkeeping for one outstanding fragment, with the bytes it describes. -/
structure SendSlot (F : Type) where
  body : Str
  occupied : Bool
  last : Bool
  sent : Bool
  nackResent : Bool
  retransmits : ℕ
  firstSentMs : F
  lastSentMs : F
  ackedAccounted : Bool

/-- A window of fragments sent. -/
structure SendRing (n : ℕ) (F : Type) where
  slot : Fin n → SendSlot F
  slotLen : ℕ
  fragmentCapacity : ℕ
  channel : Channel
  base : UInt32
  next : UInt32
  cursor : UInt32
  nackBelow : Option UInt32
  outstanding : ℕ
  stale : ℕ
  bytesSent : ℕ
  acked : ℕ
  bytesAcked : ℕ
  retransmitted : ℕ

section

variable {F : Type} [F64 F]

def SendSlot.empty : SendSlot F :=
  { body := [], occupied := false, last := false, sent := false, nackResent := false,
    retransmits := 0, firstSentMs := 0.0, lastSentMs := 0.0, ackedAccounted := false }

def SendSlot.transmitted (s : SendSlot F) (nacked : Bool) (nowMs : F) : SendSlot F :=
  if s.sent then
    if nacked then { s with nackResent := true, lastSentMs := nowMs }
    else { s with retransmits := satAdd 16 s.retransmits 1, lastSentMs := nowMs }
  else { s with sent := true, firstSentMs := nowMs, lastSentMs := nowMs }

def SendSlot.retired (s : SendSlot F) : Bool := s.sent && !s.occupied

namespace SendRing

variable {n : ℕ} [NeZero n]

def fresh (storageLen fragmentCapacity : ℕ) (channel : Channel) : SendRing n F :=
  { slot := fun _ => .empty, slotLen := storageLen, fragmentCapacity, channel, base := 0,
    next := 0, cursor := 0, nackBelow := none, outstanding := 0, stale := 0, bytesSent := 0,
    acked := 0, bytesAcked := 0, retransmitted := 0 }

def newWithCapacity (n bodiesLen storageLen fragmentCapacity : ℕ) (channel : Channel) :
    Except Error (SendRing n F) :=
  if storageLen = 0 ∨ fragmentCapacity = 0 ∨ storageLen < fragmentCapacity ∨
      2 ^ 16 - 1 < fragmentCapacity then .error .badLength
  else if bodiesLen ≠ n * storageLen then .error .badLength
  else .ok (fresh storageLen fragmentCapacity channel)

variable (r : SendRing n F)

def storageCapacity : ℕ := r.slotLen

/-- Changing the capacity would leave every queued fragment representable. -/
def canSetFragmentCapacity (capacity : ℕ) : Bool :=
  decide (0 < capacity ∧ capacity ≤ r.slotLen ∧ capacity ≤ 2 ^ 16 - 1 ∧
    ∀ i, (r.slot i).occupied = true → (r.slot i).body.length ≤ capacity)

/-- Change the capacity used by newly queued messages. -/
def setFragmentCapacity (capacity : ℕ) : SendRing n F × Bool :=
  if r.canSetFragmentCapacity capacity then ({ r with fragmentCapacity := capacity }, true)
  else (r, false)

def inFlight : UInt32 := r.next - r.base

/-- Abandon every queued fragment while preserving the sequence space. -/
def discardPending : SendRing n F × UInt32 :=
  ({ r with slot := fun _ => .empty, base := r.next, cursor := r.next, nackBelow := none,
            outstanding := 0, stale := 0 }, r.inFlight)

def windowFree : ℕ := min n (2 ^ 32 - 1) - r.inFlight.toNat

/-! ## Queueing -/

/-- The loop of `enqueue`: write the fragments with the given indices. A refusal leaves what was
already written, all of it at or past `next`. -/
def writeFragments (message : Message) : List ℕ → SendRing n F → SendRing n F × Option Error
  | [], r => (r, none)
  | index :: rest, r =>
    if 2 ^ 32 ≤ index then (r, some .badLength)
    else
      let sequence := r.next + UInt32.ofNat index
      match message.fragment index r.fragmentCapacity r.slotLen with
      | none => (r, some .badLength)
      | some (.error error) => (r, some error)
      | some (.ok fragment) =>
        if 2 ^ 16 ≤ fragment.body.length then (r, some .badLength)
        else
          let entry : SendSlot F :=
            { SendSlot.empty with body := fragment.body, occupied := true, last := fragment.last }
          writeFragments message rest
            { r with slot := Function.update r.slot (slotIndex n sequence) entry }

def enqueue (message : Message) : SendRing n F × Except Error ℕ :=
  let fragments := fragmentCount message.totalLen r.fragmentCapacity
  if r.windowFree < fragments then (r, .error .bufferTooSmall)
  else
    match writeFragments message (List.range fragments) r with
    | (r, some error) => (r, .error error)
    | (r, none) =>
      if 2 ^ 32 ≤ fragments then (r, .error .badLength)
      else ({ r with next := r.next + UInt32.ofNat fragments }, .ok fragments)

/-! ## Acknowledgements -/

/-- The delivery accounting loop of `on_ack`, from `sequence` up to `cumulative`. -/
def accountLoop (cumulative : UInt32) : ℕ → UInt32 → SendRing n F → SendRing n F
  | 0, _, r => r
  | k + 1, sequence, r =>
    if Seq.lt sequence cumulative then
      let s := r.slot (slotIndex n sequence)
      accountLoop cumulative k (sequence + 1)
        (if s.sent && !s.ackedAccounted then
          { r with
            slot := Function.update r.slot (slotIndex n sequence) { s with ackedAccounted := true }
            bytesAcked := satAdd 64 r.bytesAcked s.body.length }
        else r)
    else r

def reportedCumulative (ack : Ack) : UInt32 :=
  if r.channel.val < ack.reported then ack.cumulative r.channel else r.base

/-- Everything below `cumulative` is delivered: account for it and move the base. -/
def advanceBase (cumulative : UInt32) : SendRing n F :=
  let r' := accountLoop cumulative (cumulative - r.base).toNat r.base r
  { r' with
    acked := satAdd 64 r'.acked (cumulative - r.base).toNat
    base := cumulative
    cursor := if Seq.lt r'.cursor cumulative then cumulative else r'.cursor }

def ackCumulative (ack : Ack) : SendRing n F :=
  if Seq.gt (r.reportedCumulative ack) r.base && Seq.le (r.reportedCumulative ack) r.next then
    r.advanceBase (r.reportedCumulative ack)
  else r

/-- Remember the sequence a negative acknowledgement names. -/
def ackNack (ack : Ack) : SendRing n F :=
  if ack.nack && ack.triggerChannel = r.channel then { r with nackBelow := some ack.triggerSeq }
  else r

/-- The trigger half of `on_ack`: retire the named fragment, with its round trip. `previous` is the
base before the acknowledgement. -/
def ackTrigger (previous : UInt32) (r : SendRing n F) (ack : Ack) (nowMs : F) :
    SendRing n F × Option F :=
  if ack.triggerChannel ≠ r.channel then (r, none)
  else if Seq.lt ack.triggerSeq previous || Seq.ge ack.triggerSeq r.next then (r, none)
  else
    let s := r.slot (slotIndex n ack.triggerSeq)
    if !s.occupied || !s.sent then (r, none)
    else
      let sample := nowMs - s.firstSentMs
      let freed := { s with occupied := false }
      ({ r with slot := Function.update r.slot (slotIndex n ack.triggerSeq) freed },
        if F64.isFinite sample && F64.le (0.0 : F) sample then some sample else none)

def onAck (ack : Ack) (nowMs : F) : SendRing n F × Option F :=
  ackTrigger r.base ((r.ackCumulative ack).ackNack ack) ack nowMs

/-! ## The scan -/

/-- Retransmission timeout for a fragment that has been sent `retransmits` times already. -/
def rtoMs (retransmits : ℕ) (srttMs : F) : F :=
  F64.clamp (2.0 * F64.ofNat (retransmits + 1) * srttMs) 50.0 1000.0 + 30.0

/-- Count a fragment toward the stale total. -/
def classify (i : Fin n) (nowMs srttMs : F) (lv : Level F) : SendRing n F :=
  let s := r.slot i
  if !s.occupied then r
  else
    let age := nowMs - s.lastSentMs
    let threshold := lv.rttMult * srttMs + lv.baseMs
    if F64.lt threshold age || F64.lt (lv.rttMult * 100.0 + lv.baseMs) srttMs ||
        decide (0 < s.retransmits) || s.nackResent || !s.sent then
      { r with stale := satAdd 32 r.stale 1 }
    else r

/-- A negative acknowledgement names a later sequence and this fragment has not answered one. -/
def nacked (sequence : UInt32) (s : SendSlot F) : Bool :=
  match r.nackBelow with
  | some below => Seq.lt sequence below && !s.nackResent
  | none => false

/-- A fragment is due: never sent, named by a negative acknowledgement, or timed out. -/
def due (sequence : UInt32) (s : SendSlot F) (nowMs srttMs : F) : Bool :=
  if !s.sent then true
  else if r.nacked sequence s then true
  else F64.lt (rtoMs s.retransmits srttMs) (nowMs - s.lastSentMs)

/-- Commit the fragment at the cursor as transmitted and step past it. -/
def transmit (nowMs srttMs : F) (lv : Level F) : SendRing n F :=
  let i := slotIndex n r.cursor
  let s := r.slot i
  let r' := { r with
    slot := Function.update r.slot i (SendSlot.transmitted s (r.nacked r.cursor s) nowMs)
    outstanding := satAdd 32 r.outstanding 1
    bytesSent := satAdd 64 r.bytesSent s.body.length
    retransmitted := if s.sent then satAdd 64 r.retransmitted 1 else r.retransmitted }
  { r'.classify i nowMs srttMs lv with cursor := r.cursor + 1 }

def packetAt : Data :=
  let s := r.slot (slotIndex n r.cursor)
  { channel := r.channel, seq := r.cursor, last := s.last, body := s.body }

/-- The scan of `poll_send`, which runs until something is due or the cursor reaches `next`. -/
def pollLoop (nowMs srttMs : F) (lv : Level F) (outLen : ℕ) :
    ℕ → SendRing n F → SendRing n F × Option (Except Error Data)
  | 0, r => ({ r with nackBelow := none, cursor := r.base }, none)
  | k + 1, r =>
    if r.cursor = r.next then ({ r with nackBelow := none, cursor := r.base }, none)
    else
      let i := slotIndex n r.cursor
      let s := r.slot i
      if !s.occupied then
        pollLoop nowMs srttMs lv outLen k { r with cursor := r.cursor + 1 }
      else if OUTSTANDING_CAP ≤ r.outstanding then
        pollLoop nowMs srttMs lv outLen k
          { r.classify i nowMs srttMs lv with cursor := r.cursor + 1 }
      else if !r.due r.cursor s nowMs srttMs then
        let r' := if decide (0 < s.retransmits) || s.nackResent then
          { r with outstanding := satAdd 32 r.outstanding 1 } else r
        pollLoop nowMs srttMs lv outLen k
          { r'.classify i nowMs srttMs lv with cursor := r.cursor + 1 }
      else
        -- encoded before anything is changed, so a refusal leaves the ring as it was
        match encodeData outLen r.packetAt with
        | .error error => (r, some (.error error))
        | .ok _ => (r.transmit nowMs srttMs lv, some (.ok r.packetAt))

/-- Emit the next fragment that is due, if any, into a buffer of `outLen` bytes. -/
def pollSend (nowMs srttMs : F) (levelIndex outLen : ℕ) :
    SendRing n F × Option (Except Error Data) :=
  pollLoop nowMs srttMs (level F levelIndex) outLen (r.next - r.cursor).toNat r

def beginPass : SendRing n F :=
  { r with outstanding := 0, stale := 0, cursor := r.base }

end SendRing

end

end OpenStream.Lowlat
