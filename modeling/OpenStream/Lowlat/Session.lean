import OpenStream.Lowlat.SendRing

/-!
# The receiving half of a session

What a `Session` keeps for the data it receives: the rings, the datagram that prompted the next
acknowledgement, and whether one is due.

* `RecvHalf.processData`: the data arm of `process_input`. The trigger is set before the ring is
  asked, whatever the ring answers.
* `RecvHalf.poll`: an acknowledgement is due when nothing else has sent one for the cadence.
-/

namespace OpenStream.Lowlat

open Bytes

inductive Inbound
  | data (channel : Channel) (stored : Stored)
  | unhandled (channel : Channel)
  deriving DecidableEq

/-- The receiving half of a session, its rings all of `n` slots. -/
structure RecvHalf (n : ℕ) (F : Type) where
  recv : Channel → Option (RecvRing n)
  trigger : Channel × UInt32
  ackDue : Bool
  ackKind : AckKind
  lastAckSentMs : F

namespace RecvHalf

variable {n : ℕ} [NeZero n] {F : Type} [F64 F]

def ACK_CADENCE_MS : F := 30.0

def new (recv : Channel → Option (RecvRing n)) (nowMs : F) : RecvHalf n F :=
  { recv, trigger := (0, 0), ackDue := false, ackKind := .ack, lastAckSentMs := nowMs }

variable (h : RecvHalf n F)

def processData (data : Data) : RecvHalf n F × Except Error Inbound :=
  if !seqAccepted data.seq then (h, .error .malformed)
  else
    let h := { h with trigger := (data.channel, data.seq), ackDue := true, ackKind := .ack }
    match h.recv data.channel with
    | none => (h, .ok (.unhandled data.channel))
    | some ring =>
      let (ring, stored) := ring.store data.seq data.body
      ({ h with recv := Function.update h.recv data.channel (some ring) },
        .ok (.data data.channel stored))

def poll (nowMs : F) : RecvHalf n F :=
  if !h.ackDue && F64.le ACK_CADENCE_MS (nowMs - h.lastAckSentMs) then
    { h with ackDue := true, ackKind := .keepalive }
  else h

/-- The group acknowledgement of `emit_ack`. -/
def ack : Ack :=
  let keepalive := h.ackKind = .keepalive
  { kind := h.ackKind
    nack := (∃ c, (h.recv c).any RecvRing.hasGap) ∧ ¬keepalive
    triggerChannel := if keepalive then 0 else h.trigger.1
    triggerSeq := if keepalive then 0 else h.trigger.2
    cumulative := fun c => ((h.recv c).map RecvRing.cumulativeAck).getD 0
    reported := CHANNEL_COUNT }

/-- The acknowledgement part of `get_output`; `sealed` is whether the buffer and the envelope let the
datagram be built. -/
def getOutput (nowMs : F) (sealed : Bool) : RecvHalf n F × Option Ack :=
  if h.ackDue && sealed then ({ h with ackDue := false, lastAckSentMs := nowMs }, some h.ack)
  else (h, none)

def takeMessage (h : RecvHalf n F) (channel : Channel) (outLen : ℕ) :
    RecvHalf n F × Option (Except Error Str) :=
  match h.recv channel with
  | none => (h, none)
  | some ring =>
    let (ring, result) := ring.takeMessage outLen
    ({ h with recv := Function.update h.recv channel (some ring) }, result)

end RecvHalf

end OpenStream.Lowlat
