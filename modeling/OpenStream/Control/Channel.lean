import OpenStream.Lib.Bytes
import OpenStream.Lib.Table

/-!
# The ordered control channel

Reliable, ordered messages inside authenticated datagrams: every message has a sequence number, the
oldest unacknowledged one is sent again and again, and the receiver hands messages over in order.

* `Frame`: one message and a cumulative acknowledgement, or an acknowledgement alone.

The maps keyed by sequence number are `BTreeMap`s in the source; no operation depends on the order
of their entries, as the ages `next_frame` compares are distinct.
-/

namespace OpenStream.Control

open Bytes

def HEADER_LEN : ℕ := 12

/-- `MAX_DATAGRAM` less the outer header and tag. -/
def MAX_PLAINTEXT : ℕ := 1200 - 16 - 16

def MAX_PAYLOAD : ℕ := MAX_PLAINTEXT - HEADER_LEN

/-- One ordered control message and its cumulative acknowledgement. -/
structure Frame where
  sequence : UInt32
  acknowledgement : Option UInt32
  ackOnly : Bool
  payload : Str
  deriving DecidableEq

inductive Error
  | emptyMessage
  | tooLarge
  | windowFull
  deriving DecidableEq, Repr

/-- Result of passing an ordered frame to a receive side. -/
structure Received where
  delivered : List Str
  acknowledgement : Option UInt32
  deriving DecidableEq

structure Channel where
  nextSequence : UInt32
  expectedSequence : UInt32
  receivedAny : Bool
  pendingAck : Option UInt32
  outstanding : Table UInt32 Str
  waiting : Table UInt32 Str
  maxPending : ℕ

def sequenceAtOrBefore (sequence reference : UInt32) : Bool :=
  sequence = reference || (reference - sequence).toNat < 2 ^ 31

namespace Channel

/-- Create a channel with a fixed outbound and inbound window. -/
def new (maxPending : ℕ) : Channel :=
  { nextSequence := 0, expectedSequence := 0, receivedAny := false, pendingAck := none,
    outstanding := ∅, waiting := ∅, maxPending := max maxPending 1 }

variable (c : Channel)

def queue (payload : Str) : Channel × Except Error UInt32 :=
  if payload.isEmpty then (c, .error .emptyMessage)
  else if MAX_PAYLOAD < payload.length then (c, .error .tooLarge)
  else if c.maxPending ≤ c.outstanding.size then (c, .error .windowFull)
  else
    ({ c with nextSequence := c.nextSequence + 1
              outstanding := c.outstanding.insert c.nextSequence payload }, .ok c.nextSequence)

def age (sequence : UInt32) : ℕ := (c.nextSequence - sequence).toNat

def nextFrame : Option Frame :=
  (Table.maxByKey (fun e => c.age e.1) c.outstanding.entries).map fun e =>
    { sequence := e.1, acknowledgement := c.pendingAck, ackOnly := false, payload := e.2 }

def acknowledgementFrame : Option Frame :=
  c.pendingAck.map fun a =>
    { sequence := 0, acknowledgement := some a, ackOnly := true, payload := [] }

/-- Mark every outbound sequence through a cumulative acknowledgement delivered. -/
def acknowledge (acknowledgement : UInt32) : Channel :=
  { c with outstanding :=
      c.outstanding.retain fun sequence _ => !sequenceAtOrBefore sequence acknowledgement }

/-- Take what waits at the expected sequence, and on; `fuel` is the number of messages waiting. -/
def drain : ℕ → Channel → List Str → Channel × List Str
  | 0, c, delivered => (c, delivered)
  | fuel + 1, c, delivered =>
    match c.waiting.lookup c.expectedSequence with
    | none => (c, delivered)
    | some payload =>
      drain fuel { c with waiting := c.waiting.erase c.expectedSequence
                          expectedSequence := c.expectedSequence + 1 } (delivered ++ [payload])

def receiveData (frame : Frame) : Channel × Received :=
  if frame.ackOnly then (c, ⟨[], c.pendingAck⟩)
  else if sequenceAtOrBefore frame.sequence c.expectedSequence &&
      frame.sequence ≠ c.expectedSequence then (c, ⟨[], c.pendingAck⟩)
  else if frame.sequence ≠ c.expectedSequence then
    (if c.waiting.size < c.maxPending then
        { c with waiting := c.waiting.orInsert frame.sequence frame.payload }
      else c, ⟨[], c.pendingAck⟩)
  else
    let (c', delivered) :=
      drain c.waiting.size { c with expectedSequence := c.expectedSequence + 1 } [frame.payload]
    let acknowledgement := c'.expectedSequence - 1
    ({ c' with receivedAny := true, pendingAck := some acknowledgement },
      ⟨delivered, some acknowledgement⟩)

/-- What a frame acknowledges, if anything, is delivered. -/
def acknowledged : Option UInt32 → Channel
  | some a => c.acknowledge a
  | none => c

def receive (frame : Frame) : Channel × Received :=
  (c.acknowledged frame.acknowledgement).receiveData frame

/-! ## The two halves of a channel -/

/-- The fields of the sending half agree. -/
structure SameSending (c c' : Channel) : Prop where
  nextSequence : c'.nextSequence = c.nextSequence
  outstanding : c'.outstanding = c.outstanding
  maxPending : c'.maxPending = c.maxPending

/-- The fields of the receiving half agree. -/
structure SameReceiving (c c' : Channel) : Prop where
  expectedSequence : c'.expectedSequence = c.expectedSequence
  waiting : c'.waiting = c.waiting
  pendingAck : c'.pendingAck = c.pendingAck

variable {c}

theorem drain_sending : ∀ (fuel : ℕ) (c : Channel) (l : List Str),
    SameSending c (drain fuel c l).1
  | 0, _, _ => ⟨rfl, rfl, rfl⟩
  | fuel + 1, c, l => by
    unfold drain
    split
    · exact ⟨rfl, rfl, rfl⟩
    · rename_i payload _
      have h := drain_sending fuel { c with waiting := c.waiting.erase c.expectedSequence
                                            expectedSequence := c.expectedSequence + 1 }
        (l ++ [payload])
      exact { h with }

theorem receiveData_sending (f : Frame) : SameSending c (c.receiveData f).1 := by
  unfold receiveData
  split_ifs
  · exact ⟨rfl, rfl, rfl⟩
  · exact ⟨rfl, rfl, rfl⟩
  · exact ⟨rfl, rfl, rfl⟩
  · exact ⟨rfl, rfl, rfl⟩
  · have h := drain_sending c.waiting.size
      { c with expectedSequence := c.expectedSequence + 1 } [f.payload]
    exact { h with }

theorem acknowledged_receiving (a : Option UInt32) : SameReceiving c (c.acknowledged a) := by
  cases a with
  | none | some a => exact ⟨rfl, rfl, rfl⟩

theorem receiveData_ignored {f : Frame}
    (h : f.ackOnly = true ∨ (sequenceAtOrBefore f.sequence c.expectedSequence = true ∧
      f.sequence ≠ c.expectedSequence)) : c.receiveData f = (c, ⟨[], c.pendingAck⟩) := by
  unfold receiveData
  rcases h with h | ⟨h1, h2⟩
  · rw [if_pos h]
  · have hold : (sequenceAtOrBefore f.sequence c.expectedSequence &&
        f.sequence ≠ c.expectedSequence) = true := by simp [h1, h2]
    rw [if_pos hold, ite_self]

theorem receiveData_next {f : Frame} (hw : c.waiting = ∅) (h1 : f.ackOnly = false)
    (h2 : f.sequence = c.expectedSequence) : c.receiveData f =
      ({ c with expectedSequence := c.expectedSequence + 1, receivedAny := true
                pendingAck := some c.expectedSequence },
        ⟨[f.payload], some c.expectedSequence⟩) := by
  unfold receiveData
  rw [if_neg (by simp [h1]), if_neg (by simp [h2]), if_neg (by simp [h2]), hw]
  simp [Table.size, AList.empty_entries, drain]

end Channel

end OpenStream.Control
