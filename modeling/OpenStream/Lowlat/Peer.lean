import OpenStream.Lowlat.Envelope
import OpenStream.Lowlat.Pacer
import OpenStream.Lowlat.SendChannel
import OpenStream.Lowlat.Session

/-!
# The session

One object behind which the whole core stands: bytes in, bytes out, time as a parameter. Its receive
rings all have `n` slots; its send rings have any number each. The rate controller and the transport
statistics, which `poll` writes and nothing here reads, are left out.

* `Session.processInput`: the direction is checked, then the record is opened, then parsed.
* `Session.getOutput`: acknowledgements first, then the send rings in `DRAIN_ORDER`, with a quantum
  for control and audio and the pacer before video.
* `Session.setPathDatagramSize`, `Session.recoverVideoPathDatagramSize`: packetization and pacing
  change together or not at all.
* `Session.seal_`: the only place where a counter is spent.
-/

namespace OpenStream.Lowlat

open Bytes

def VIDEO_CHANNEL : Channel := 1
def AUDIO_CHANNEL : Channel := 2
def CONTROL_CHANNEL : Channel := 0

/-- Unpaced bytes of control before a lower channel gets a turn. -/
def CONTROL_PRIORITY_QUANTUM_BYTES : ℕ := DEFAULT_DATAGRAM * MAX_BURST_DATAGRAMS
def AUDIO_PRIORITY_QUANTUM_BYTES : ℕ := DEFAULT_DATAGRAM * MAX_BURST_DATAGRAMS

def DRAIN_ORDER : List Channel :=
  [0, 2, 1, 3, 4, 5, 6, 7, 8, 9, 10, 11, 12, 13, 14, 15, 16, 17, 18]

def channelOf (channel : UInt8) : Option Channel :=
  if h : channel.toNat < CHANNEL_COUNT then some ⟨channel.toNat, h⟩ else none

inductive Session.Inbound
  | data (channel : Channel)
  | ack
  | keepalive
  | probe (id : UInt32) (size : ℕ)
  | probeAck (id : UInt32) (size : ℕ)
  | unhandled (channel : Channel)
  deriving DecidableEq

structure Delivery (F : Type) where
  ackedSeen : ℕ
  sinceMs : F

/-- One end of a connection. -/
structure Session (n : ℕ) (F : Type) where
  envelope : Envelope
  direction : Direction
  /-- The receive rings and what is owed for them. -/
  half : RecvHalf n F
  send : Channel → Option (SendChannel F)
  level : ℕ
  txCounter : UInt64
  srttMs : F
  srttSeeded : Bool
  lastProgressMs : F
  delivery : Channel → Delivery F
  /-- The position in `DRAIN_ORDER` the output drain has reached. -/
  drainChannel : ℕ
  drainStarted : Bool
  pacer : Pacer F
  /-- Bytes emitted of each bounded class in this pass. -/
  drainBytes : Channel → ℕ
  pathDatagramSize : ℕ
  pendingProbeAck : Option Packet.ProbeAck

namespace Session

variable {n : ℕ} [NeZero n] {F : Type} [Double F]

section Constants

variable (F)

def SRTT_ALPHA : F := 0.1

end Constants

def withDirection (envelope : Envelope) (direction : Direction) (level : ℕ) (nowMs : F) :
    Session n F :=
  { envelope
    direction
    half := .new (fun _ => none) nowMs
    send := fun _ => none
    level
    txCounter := 0
    srttMs := 0.0
    srttSeeded := false
    lastProgressMs := nowMs
    delivery := fun _ => ⟨0, nowMs⟩
    drainChannel := 0
    drainStarted := false
    pacer := .new nowMs
    drainBytes := fun _ => 0
    pathDatagramSize := DEFAULT_DATAGRAM
    pendingProbeAck := none }

variable (s : Session n F)

/-! ## Rings -/

def attachRecv (channel : UInt8) (ring : RecvRing n) : Session n F × Except Error Unit :=
  match channelOf channel with
  | none => (s, .error .malformed)
  | some c =>
    ({ s with half := { s.half with recv := Function.update s.half.recv c (some ring) } }, .ok ())

def bodyOf (datagramBytes : ℕ) : ℕ := datagramBytes - (ENVELOPE_LEN + HEADER_LEN)

def attachSend (channel : UInt8) (ring : SendChannel F) : Session n F × Except Error Unit :=
  let body := bodyOf s.pathDatagramSize
  if body < ring.fragmentCapacity ∧ !(ring.setFragmentCapacity body).2 then
    (s, .error .bufferTooSmall)
  else
    let ring := if body < ring.fragmentCapacity then (ring.setFragmentCapacity body).1 else ring
    match channelOf channel with
    | none => (s, .error .malformed)
    | some c => ({ s with send := Function.update s.send c (some ring) }, .ok ())

def sendMessage (channel : UInt8) (header payload : Str) : Session n F × Except Error ℕ :=
  match channelOf channel with
  | none => (s, .error .malformed)
  | some c =>
    match s.send c with
    | none => (s, .error .malformed)
    | some ring =>
      match Message.new header payload with
      | .error error => (s, .error error)
      | .ok message =>
        ({ s with send := Function.update s.send c (some (ring.enqueue message).1) },
          (ring.enqueue message).2)

def takeMessage (channel : UInt8) (outLen : ℕ) : Session n F × Option (Except Error Str) :=
  match channelOf channel with
  | none => (s, none)
  | some c => ({ s with half := (s.half.takeMessage c outLen).1 }, (s.half.takeMessage c outLen).2)

def resetRecv (channel : UInt8) (sequence : UInt32) : Session n F × Except Error Unit :=
  match (channelOf channel).bind fun c => (s.half.recv c).map (c, ·) with
  | none => (s, .error .malformed)
  | some (c, ring) =>
    ({ s with half :=
        { s.half with recv := Function.update s.half.recv c (some (ring.resetTo sequence)) } },
      .ok ())

/-- Skip a gap of a channel to the first message that can start afresh. -/
def escapeStall (channel : UInt8) (resumable : Str → Bool) : Session n F × Option UInt32 :=
  match (channelOf channel).bind fun c => (s.half.recv c).map (c, ·) with
  | none => (s, none)
  | some (c, ring) =>
    ({ s with half :=
        { s.half with recv :=
            Function.update s.half.recv c (some (ring.escapeStall resumable).1) } },
      (ring.escapeStall resumable).2)

/-! ## The path -/

def setPacingRateMbps (nowMs rateMbps : F) : Session n F :=
  { s with pacer := s.pacer.setRate nowMs rateMbps }

def setPacingDatagramSize (datagramBytes : ℕ) : Session n F × Bool :=
  ({ s with pacer := (s.pacer.setDatagramSize datagramBytes).1 },
    (s.pacer.setDatagramSize datagramBytes).2)

def setPathDatagramSize (datagramBytes : ℕ) : Session n F × Bool :=
  if !probeSize datagramBytes then (s, false)
  else
    let body := bodyOf datagramBytes
    if ∃ c, (s.send c).any fun ring => !ring.canSetFragmentCapacity body then (s, false)
    else
      match s.pacer.setDatagramSize datagramBytes with
      | (_, false) => (s, false)
      | (pacer, true) =>
        ({ s with
            pacer
            send := fun c => (s.send c).map fun ring => (ring.setFragmentCapacity body).1
            pathDatagramSize := datagramBytes }, true)

def canRecoverVideoPathDatagramSize (datagramBytes : ℕ) : Bool :=
  if s.pathDatagramSize ≤ datagramBytes || !probeSize datagramBytes then false
  else
    let body := bodyOf datagramBytes
    decide (∀ c, (s.send c).all fun ring =>
      if c = VIDEO_CHANNEL then decide (body ≤ ring.ring.storageCapacity)
      else ring.canSetFragmentCapacity body)

def recoverVideoPathDatagramSize (datagramBytes : ℕ) : Session n F × Option UInt32 :=
  if !s.canRecoverVideoPathDatagramSize datagramBytes then (s, none)
  else
    match s.pacer.setDatagramSize datagramBytes with
    | (_, false) => (s, none)
    | (pacer, true) =>
      let body := bodyOf datagramBytes
      ({ s with
          pacer
          send := fun c => (s.send c).map fun ring =>
            ((if c = VIDEO_CHANNEL then ring.discardPending.1 else ring).setFragmentCapacity body).1
          pathDatagramSize := datagramBytes },
        some (((s.send VIDEO_CHANNEL).map fun ring => ring.discardPending.2).getD 0))

def applyPathMtu (mtu : PathMtu F) : Session n F × Bool :=
  if mtu.state = .error then (s, false) else s.setPathDatagramSize mtu.datagramSize

def feedbackPending : Bool := s.half.ackDue || s.pendingProbeAck.isSome

/-! ## The delivery watchdog -/

def resetDeliveryWatchdog (nowMs : F) : Session n F :=
  if !F64.isFinite nowMs then s
  else { s with
    lastProgressMs := nowMs
    delivery := fun c => { s.delivery c with sinceMs := nowMs } }

/-! ## Input -/

/-- Fold a round-trip sample into the estimate. -/
def observeRtt (sampleMs : F) : Session n F :=
  if !F64.isFinite sampleMs || F64.lt sampleMs (0.0 : F) then s
  else if s.srttSeeded then
    { s with srttMs := s.srttMs * (1.0 - SRTT_ALPHA F) + sampleMs * SRTT_ALPHA F }
  else { s with srttMs := sampleMs, srttSeeded := true }

def sampleOf (ack : Ack) (nowMs : F) : Option F :=
  (List.finRange CHANNEL_COUNT).foldl (fun sample c =>
    ((s.send c).bind fun ring => (ring.onAck ack nowMs).2).orElse fun _ => sample) none

/-- The acknowledgement arm of `process_input`. -/
def processAck (ack : Ack) (nowMs : F) : Session n F :=
  let acked := { s with send := fun c => (s.send c).map fun ring => (ring.onAck ack nowMs).1 }
  match s.sampleOf ack nowMs with
  | none => acked
  | some sample => acked.observeRtt sample

def processPacket (packet : Packet) (datagramLen : ℕ) (nowMs : F) :
    Session n F × Except Error Inbound :=
  match packet with
  | .data data =>
    ({ s with half := (s.half.processData data).1 },
      match (s.half.processData data).2 with
      | .error error => .error error
      | .ok (.data channel _) => .ok (.data channel)
      | .ok (.unhandled channel) => .ok (.unhandled channel))
  | .ack ack =>
    (s.processAck ack nowMs, .ok (match ack.kind with
      | .ack => .ack
      | .keepalive => .keepalive))
  | .probe probe =>
    if datagramLen ≠ probe.size then (s, .error .malformed)
    else ({ s with pendingProbeAck := some ⟨probe.id, probe.size⟩ }, .ok (.probe probe.id probe.size))
  | .probeAck ack => (s, .ok (.probeAck ack.id ack.size))

def processInput (datagram : Str) (nowMs : F) (scratchLen : ℕ) : Session n F × Except Error Inbound :=
  if Direction.fromDatagram datagram ≠ some s.direction.opposite then (s, .error .decrypt)
  else
    match s.envelope.open_ datagram scratchLen with
    | .error error => (s, .error error)
    | .ok opened =>
      match parse opened.cleartext with
      | .error error => (s, .error error)
      | .ok packet => processPacket { s with lastProgressMs := nowMs } packet datagram.length nowMs

/-- Housekeeping; begins a new output pass. -/
def poll (nowMs : F) : Session n F :=
  { s with
    drainStarted := false
    half := s.half.poll nowMs
    delivery := fun c =>
      match s.send c with
      | none => s.delivery c
      | some ring =>
        if ring.ring.inFlight = 0 ∨ ring.ring.acked ≠ (s.delivery c).ackedSeen then
          ⟨ring.ring.acked, nowMs⟩
        else s.delivery c }

/-! ## Output -/

def seal_ (cleartext : Str) (outLen : ℕ) : Session n F × Except Error Str :=
  if (1 : UInt64) <<< 63 ≤ s.txCounter then (s, .error .oversized)
  else
    ({ s with txCounter := s.txCounter + 1 },
      s.envelope.sealInPlace (s.txCounter ||| s.direction.sealBit) cleartext outLen)

def emit (encode : ℕ → Except Error Str) (outLen : ℕ) : Session n F × Except Error Str :=
  if outLen < ENVELOPE_LEN then (s, .error .bufferTooSmall)
  else
    match encode (outLen - ENVELOPE_LEN) with
    | .error error => (s, .error error)
    | .ok cleartext => s.seal_ cleartext outLen

def emitAck (outLen : ℕ) : Session n F × Except Error Str := s.emit (encodeAck s.half.ack) outLen

def emitProbeAck (ack : Packet.ProbeAck) (outLen : ℕ) : Session n F × Except Error Str :=
  s.emit (encodeProbeAck ack) outLen

def emitPathProbe (probe : Probe) (outLen : ℕ) : Session n F × Except Error Str :=
  s.emit (encodeProbe ⟨UInt32.ofNat probe.id, probe.size⟩) outLen

def priorityQuantum (channel : Channel) : Option ℕ :=
  if channel = CONTROL_CHANNEL then some CONTROL_PRIORITY_QUANTUM_BYTES
  else if channel = AUDIO_CHANNEL then some AUDIO_PRIORITY_QUANTUM_BYTES
  else none

def dueLen (channel : Channel) (nowMs : F) : Option ℕ :=
  (s.send channel).bind fun ring => ring.nextDueLen nowMs s.srttMs

def hasDueAfter (position : ℕ) (nowMs : F) : Bool :=
  (DRAIN_ORDER.drop (position + 1)).any fun channel => (s.dueLen channel nowMs).isSome

/-- A bounded class has had its quantum and somebody else waits. -/
def yields (channel : Channel) (wireLen : ℕ) (nowMs : F) : Bool :=
  match priorityQuantum channel with
  | none => false
  | some quantum => 0 < s.drainBytes channel && quantum < s.drainBytes channel + wireLen &&
      s.hasDueAfter s.drainChannel nowMs

def paced (channel : Channel) : Bool := channel = VIDEO_CHANNEL && s.pacer.enabled

/-- Seal a fragment that its ring has let go, and account for it. -/
def release (channel : Channel) (data : Data) (nowMs : F) (outLen : ℕ) :
    Session n F × Except Error Str :=
  match s.seal_ data.bytes outLen with
  | (s, .error error) => (s, .error error)
  | (s, .ok datagram) =>
    ({ s with
        pacer := if s.paced channel then (s.pacer.tryConsume nowMs datagram.length).1 else s.pacer
        drainBytes :=
          if (priorityQuantum channel).isSome then
            Function.update s.drainBytes channel (s.drainBytes channel + datagram.length)
          else s.drainBytes }, .ok datagram)

/-- The loop of `get_output` over the channels, each of which it leaves at most once. -/
def drain (nowMs : F) (outLen : ℕ) : ℕ → Session n F → Session n F × Option (Except Error Str)
  | 0, s => ({ s with drainStarted := false }, none)
  | k + 1, s =>
    match DRAIN_ORDER[s.drainChannel]? with
    | none => ({ s with drainStarted := false }, none)
    | some channel =>
      let next := { s with drainChannel := s.drainChannel + 1 }
      match s.send channel, s.dueLen channel nowMs with
      | some ring, some cleartextLen =>
        let wireLen := ENVELOPE_LEN + cleartextLen
        if s.yields channel wireLen nowMs then drain nowMs outLen k next
        -- the pass stays open: no ring has moved
        else if s.paced channel && !s.pacer.canConsume nowMs wireLen then (s, none)
        else if outLen < ENVELOPE_LEN then (s, some (.error .bufferTooSmall))
        else
          match ring.pollSend nowMs s.srttMs s.level (outLen - ENVELOPE_LEN) with
          | (ring, some (.ok data)) =>
            let s := { s with send := Function.update s.send channel (some ring) }
            ((s.release channel data nowMs outLen).1, some (s.release channel data nowMs outLen).2)
          | (ring, some (.error error)) =>
            ({ s with send := Function.update s.send channel (some ring) }, some (.error error))
          | (ring, none) =>
            drain nowMs outLen k { next with send := Function.update s.send channel (some ring) }
      | _, _ => drain nowMs outLen k next

def beginDrain : Session n F :=
  if s.drainStarted then s
  else { s with
    send := fun c => (s.send c).map SendChannel.beginPass
    drainChannel := 0
    drainBytes := fun _ => 0
    drainStarted := true }

/-- Emit the next datagram into a buffer of `outLen` bytes. -/
def getOutput (nowMs : F) (outLen : ℕ) : Session n F × Option (Except Error Str) :=
  let s := s.beginDrain
  if s.half.ackDue then
    match s.emitAck outLen with
    | (s, .error error) => (s, some (.error error))
    | (s, .ok datagram) => ({ s with half := (s.half.getOutput nowMs true).1 }, some (.ok datagram))
  else
    match s.pendingProbeAck with
    | some ack =>
      match s.emitProbeAck ack outLen with
      | (s, .error error) => (s, some (.error error))
      | (s, .ok datagram) => ({ s with pendingProbeAck := none }, some (.ok datagram))
    | none => drain nowMs outLen (CHANNEL_COUNT - s.drainChannel) s

/-! ## Calls -/

/-- The public operations that change a session. -/
inductive Call (n : ℕ) (F : Type)
  | attachRecv (channel : UInt8) (ring : RecvRing n)
  | attachSend (channel : UInt8) (ring : SendChannel F)
  | setPacingRateMbps (nowMs rateMbps : F)
  | setPacingDatagramSize (datagramBytes : ℕ)
  | setPathDatagramSize (datagramBytes : ℕ)
  | recoverVideoPathDatagramSize (datagramBytes : ℕ)
  | applyPathMtu (mtu : PathMtu F)
  | resetDeliveryWatchdog (nowMs : F)
  | sendMessage (channel : UInt8) (header payload : Str)
  | takeMessage (channel : UInt8) (outLen : ℕ)
  | resetRecv (channel : UInt8) (sequence : UInt32)
  | escapeStall (channel : UInt8) (resumable : Str → Bool)
  | processInput (datagram : Str) (nowMs : F) (scratchLen : ℕ)
  | poll (nowMs : F)
  | getOutput (nowMs : F) (outLen : ℕ)
  | emitPathProbe (probe : Probe) (outLen : ℕ)

def Call.run (s : Session n F) : Call n F → Session n F × Option (Except Error Str)
  | .attachRecv channel ring => ((s.attachRecv channel ring).1, none)
  | .attachSend channel ring => ((s.attachSend channel ring).1, none)
  | .setPacingRateMbps nowMs rateMbps => (s.setPacingRateMbps nowMs rateMbps, none)
  | .setPacingDatagramSize datagramBytes => ((s.setPacingDatagramSize datagramBytes).1, none)
  | .setPathDatagramSize datagramBytes => ((s.setPathDatagramSize datagramBytes).1, none)
  | .recoverVideoPathDatagramSize datagramBytes =>
    ((s.recoverVideoPathDatagramSize datagramBytes).1, none)
  | .applyPathMtu mtu => ((s.applyPathMtu mtu).1, none)
  | .resetDeliveryWatchdog nowMs => (s.resetDeliveryWatchdog nowMs, none)
  | .sendMessage channel header payload => ((s.sendMessage channel header payload).1, none)
  | .takeMessage channel outLen => ((s.takeMessage channel outLen).1, none)
  | .resetRecv channel sequence => ((s.resetRecv channel sequence).1, none)
  | .escapeStall channel resumable => ((s.escapeStall channel resumable).1, none)
  | .processInput datagram nowMs scratchLen => ((s.processInput datagram nowMs scratchLen).1, none)
  | .poll nowMs => (s.poll nowMs, none)
  | .getOutput nowMs outLen => s.getOutput nowMs outLen
  | .emitPathProbe probe outLen =>
    ((s.emitPathProbe probe outLen).1, some (s.emitPathProbe probe outLen).2)

end Session

end OpenStream.Lowlat
