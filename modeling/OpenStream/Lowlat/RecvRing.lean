import OpenStream.Lowlat.Message

/-!
# The receive ring

A direct-mapped window of `n` slots: the slot of a sequence number is its remainder modulo `n`.
`cumulative` is the contiguous frontier and what is acknowledged; `delivered` is where the reader
has consumed to, and bounds what may be stored.

* `RecvRing.takeMessage`: the next complete message, completeness decided by the declared length.

A slot keeps its body together with its mark: `body` is the first `len` bytes of the slot's region
of the lent arena, the only part of it that is ever read.
-/

namespace OpenStream.Lowlat

open Bytes

abbrev RING_SLOTS : ℕ := 4000

/-- Outcome of offering a fragment to the ring. -/
inductive Stored
  | accepted
  | duplicate
  | outOfWindow
  | tooLarge
  deriving DecidableEq, Repr

/-- Per-slot bookkeeping, with the bytes it describes. -/
structure SlotMeta where
  body : Str := []
  ready : Bool := false
  deriving DecidableEq

def slotIndex (n : ℕ) [NeZero n] (sequence : UInt32) : Fin n := Fin.ofNat n sequence.toNat

/-- A window of fragments received. -/
structure RecvRing (n : ℕ) where
  slot : Fin n → SlotMeta
  slotLen : ℕ
  delivered : UInt32
  cumulative : UInt32
  highest : UInt32

namespace RecvRing

variable {n : ℕ} [NeZero n]

def fresh (slotLen : ℕ) : RecvRing n :=
  { slot := fun _ => {}, slotLen, delivered := 0, cumulative := 0, highest := 0 }

/-- Build a ring over `bodiesLen` bytes of caller-owned storage. -/
def new (n bodiesLen slotLen : ℕ) : Except Error (RecvRing n) :=
  if slotLen = 0 then .error .badLength
  else if bodiesLen ≠ n * slotLen then .error .badLength
  else .ok (fresh slotLen)

variable (r : RecvRing n)

def resetTo (start : UInt32) : RecvRing n :=
  { r with slot := fun _ => {}, delivered := start, cumulative := start, highest := start }

def cumulativeAck : UInt32 := r.cumulative

def hasGap : Bool := r.cumulative ≠ r.highest

def slotBody (sequence : UInt32) : Option Str :=
  if (r.slot (slotIndex n sequence)).ready then some (r.slot (slotIndex n sequence)).body else none

/-- The loop of `advance`; it runs at most once for each sequence below `highest`. -/
def advanceLoop : ℕ → RecvRing n → RecvRing n
  | 0, r => r
  | k + 1, r =>
    if r.cumulative = r.highest then r
    else if (r.slot (slotIndex n r.cumulative)).ready then
      advanceLoop k { r with cumulative := r.cumulative + 1 }
    else r

def advance : RecvRing n := advanceLoop (r.highest - r.cumulative).toNat r

def place (sequence : UInt32) (body : Str) : RecvRing n :=
  { r with
    slot := Function.update r.slot (slotIndex n sequence) ⟨body, true⟩
    highest := if Seq.gt (sequence + 1) r.highest then sequence + 1 else r.highest }

def store (sequence : UInt32) (body : Str) : RecvRing n × Stored :=
  if Seq.lt sequence r.delivered then (r, .duplicate)
  else if n ≤ (Seq.distance r.delivered sequence).toNat then (r, .outOfWindow)
  else if r.slotLen < body.length then (r, .tooLarge)
  -- the length does not fit the slot's `u16`
  else if 2 ^ 16 ≤ body.length then (r, .tooLarge)
  else if (r.slot (slotIndex n sequence)).ready then (r, .duplicate)
  else ((r.place sequence body).advance, .accepted)

def windowUsed : UInt32 := r.highest - r.delivered

/-! ## Taking a message -/

/-- Walk from `cursor` until `stream` bytes are collected. The result is the bytes collected and the
fragments they took, or `none` when the tail has not arrived; `fuel` is the distance from `cursor`
to the frontier. -/
def collect (r : RecvRing n) (stream : ℕ) : ℕ → ℕ → ℕ → UInt32 → Option (ℕ × ℕ)
  | fuel, collected, fragments, cursor =>
    if stream ≤ collected then some (collected, fragments)
    else if cursor = r.cumulative then none
    else
      match fuel, r.slotBody cursor with
      | fuel + 1, some body =>
        collect r stream fuel (collected + body.length) (fragments + 1) (cursor + 1)
      | _, _ => none

/-- Copy `total` bytes out of the slots from `cursor` on, skipping `skip` bytes of the first. -/
def copyOut (r : RecvRing n) (total : ℕ) : ℕ → Str → ℕ → UInt32 → Except Error Str
  | fuel, written, skip, cursor =>
    if total ≤ written.length then .ok written
    else
      match fuel, r.slotBody cursor with
      | fuel + 1, some body =>
        let src := body.drop skip
        copyOut r total fuel (written ++ src.take (min src.length (total - written.length))) 0
          (cursor + 1)
      | _, _ => .error .badLength

/-- Clear the slots of the next `fragments` sequences and move the reader past them. -/
def release (fragments : ℕ) : RecvRing n :=
  { r with
    slot := (List.range fragments).foldl
      (fun slot step => Function.update slot
        (slotIndex n (r.delivered + UInt32.ofNat step)) {}) r.slot
    delivered := r.delivered + UInt32.ofNat fragments }

/-- Take the next complete message into a buffer of `outLen` bytes. The result carries the bytes
written, whose count is what the source returns. -/
def takeMessage (outLen : ℕ) : RecvRing n × Option (Except Error Str) :=
  if r.delivered = r.cumulative then (r, none)
  else
    match r.slotBody r.delivered with
    | none => (r, none)
    | some first =>
      match parseLengthPrefix first with
      | .error error => (r, some (.error error))
      | .ok total =>
        let stream := total + LENGTH_PREFIX_LEN
        let held := (r.cumulative - r.delivered).toNat
        match r.collect stream held 0 0 r.delivered with
        | none => (r, none)
        | some (collected, fragments) =>
          if collected ≠ stream then (r, some (.error .badLength))
          else if outLen < total then (r, some (.error .bufferTooSmall))
          else
            match r.copyOut total held [] LENGTH_PREFIX_LEN r.delivered with
            | .error error => (r, some (.error error))
            | .ok bytes => (r.release fragments, some (.ok bytes))

/-! ## Escaping a stall -/

/-- The furthest occupied sequence, and the furthest resumable one, from `cursor` up to `highest`. -/
def escapeScan (r : RecvRing n) (resumable : Str → Bool) :
    ℕ → UInt32 → Option UInt32 → Option UInt32 → Option UInt32 × Option UInt32
  | 0, _, furthest, best => (furthest, best)
  | k + 1, cursor, furthest, best =>
    if cursor = r.highest then (furthest, best)
    else
      match r.slotBody cursor with
      | some body =>
        escapeScan r resumable k (cursor + 1) (some cursor)
          (if resumable body then some cursor else best)
      | none => escapeScan r resumable k (cursor + 1) furthest best

def escapeStall (resumable : Str → Bool) : RecvRing n × Option UInt32 :=
  if !r.hasGap then (r, none)
  else
    let (furthest, best) :=
      r.escapeScan resumable (r.highest - r.delivered).toNat r.delivered none none
    match best.or furthest with
    | none => (r, none)
    | some target =>
      if Seq.le target r.delivered then (r, none)
      else
        let r := r.release (target - r.delivered).toNat
        let r := if Seq.lt r.cumulative target then { r with cumulative := target } else r
        (r.advance, some target)

end RecvRing

end OpenStream.Lowlat
