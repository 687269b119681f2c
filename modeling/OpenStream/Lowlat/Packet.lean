import OpenStream.Lowlat.PathMtu

/-!
# Cleartext packets

A packet is a header of seven bytes (marker, flags, channel, sequence) and what its flags say:
a fragment, the cumulative counts of an acknowledgement, or the size of a path probe.

* `parse`: the checks in the order of the source, every refusal with its error.
-/

namespace OpenStream.Lowlat

open Bytes

def MARKER : UInt8 := 0x01

def ACK_LEN : ℕ := 83

def ENVELOPE_LEN : ℕ := 29

def FLAG_DATA : UInt8 := 0x01
def FLAG_ACK : UInt8 := 0x02
def FLAG_PROBE : UInt8 := 0x04
def FLAG_KEEPALIVE : UInt8 := 0x08
def FLAG_NACK : UInt8 := 0x10
/-- Set on the last fragment of a message. -/
def FLAG_LAST : UInt8 := 0x20
def FLAG_PROBE_ACK : UInt8 := 0x40
def RESERVED_MASK : UInt8 := 0x80
def KIND_MASK : UInt8 := 0x0B

/-- A padded path-MTU probe; `size` is the datagram's whole length. -/
structure Packet.Probe where
  id : UInt32
  size : ℕ
  deriving DecidableEq

/-- A positive acknowledgement for one exact probe. -/
structure Packet.ProbeAck where
  id : UInt32
  size : ℕ
  deriving DecidableEq

inductive Packet
  | data (data : Data)
  | ack (ack : Ack)
  | probe (probe : Packet.Probe)
  | probeAck (ack : Packet.ProbeAck)

def be32At (src : Str) (offset : ℕ) : Except Error UInt32 :=
  match ofBe32 ((src.drop offset).take 4) with
  | some x => .ok (UInt32.ofNat x)
  | none => .error .shortPacket

def probeSize (size : ℕ) : Bool := DEFAULT_DATAGRAM ≤ size && size ≤ MAX_DATAGRAM

def parseProbe (cleartext : Str) (marker flags channel : UInt8) : Except Error Packet :=
  if flags ≠ FLAG_PROBE ∧ flags ≠ FLAG_PROBE_ACK then .error .malformed
  else if channel ≠ 0 then .error .malformed
  else if marker ≠ MARKER then .error .malformed
  else
    match be32At cleartext 3 with
    | .error error => .error error
    | .ok id =>
      if id = SEQ_MAX then .error .malformed
      else if cleartext.length < HEADER_LEN + 2 then .error .shortPacket
      else
        let size := ofBe ((cleartext.drop HEADER_LEN).take 2)
        if !probeSize size then .error .malformed
        else if flags = FLAG_PROBE then
          if cleartext.length ≠ size - ENVELOPE_LEN ∨
              (cleartext.drop (HEADER_LEN + 2)).any (· ≠ 0) then .error .malformed
          else .ok (.probe ⟨id, size⟩)
        else if cleartext.length ≠ HEADER_LEN + 2 then .error .malformed
        else .ok (.probeAck ⟨id, size⟩)

def reportedBy (cleartext : Str) : ℕ := min ((cleartext.length - HEADER_LEN) / 4) CHANNEL_COUNT

def cumulativeOf (cleartext : Str) (channel : Channel) : UInt32 :=
  if channel.val < reportedBy cleartext then
    match be32At cleartext (HEADER_LEN + channel.val * 4) with
    | .ok count => count
    | .error _ => 0
  else 0

def parseOrdinary (cleartext : Str) (marker flags channel : UInt8) : Except Error Packet :=
  let kind := flags &&& KIND_MASK
  let nack := flags &&& FLAG_NACK ≠ 0
  let last := flags &&& FLAG_LAST ≠ 0
  if kind ≠ FLAG_DATA ∧ kind ≠ FLAG_ACK ∧ kind ≠ FLAG_KEEPALIVE then .error .malformed
  else if nack ∧ kind ≠ FLAG_ACK then .error .malformed
  else if last ∧ (kind ≠ FLAG_DATA ∨ nack) then .error .malformed
  else if marker ≠ MARKER then .error .malformed
  else if h : channel.toNat < CHANNEL_COUNT then
    match be32At cleartext 3 with
    | .error error => .error error
    | .ok seq =>
      if seq = SEQ_MAX then .error .malformed
      else if kind = FLAG_DATA then
        .ok (.data ⟨⟨channel.toNat, h⟩, seq, last, cleartext.drop HEADER_LEN⟩)
      else if reportedBy cleartext = 0 then .error .shortAck
      else .ok (.ack {
        kind := if kind = FLAG_ACK then .ack else .keepalive
        nack := nack
        triggerChannel := ⟨channel.toNat, h⟩
        triggerSeq := seq
        cumulative := cumulativeOf cleartext
        reported := reportedBy cleartext })
  else .error .malformed

def parse (cleartext : Str) : Except Error Packet :=
  match cleartext with
  | marker :: flags :: channel :: _ =>
    if cleartext.length < HEADER_LEN then .error .shortPacket
    else if flags &&& RESERVED_MASK ≠ 0 then .error .malformed
    else if flags &&& (FLAG_PROBE ||| FLAG_PROBE_ACK) ≠ 0 then
      parseProbe cleartext marker flags channel
    else parseOrdinary cleartext marker flags channel
  | _ => .error .shortPacket

/-! ## Writing -/

def headerBytes (flags channel : UInt8) (seq : UInt32) : Str :=
  MARKER :: flags :: channel :: be32 seq.toNat

def Data.bytes (data : Data) : Str :=
  headerBytes (if data.last then FLAG_DATA ||| FLAG_LAST else FLAG_DATA)
    (UInt8.ofNat data.channel.val) data.seq ++ data.body

def Ack.flags (ack : Ack) : UInt8 :=
  let kind := match ack.kind with
    | .ack => FLAG_ACK
    | .keepalive => FLAG_KEEPALIVE
  if ack.nack then kind ||| FLAG_NACK else kind

/-- Write a group acknowledgement or keepalive. -/
def encodeAck (ack : Ack) (outLen : ℕ) : Except Error Str :=
  if ack.nack ∧ ack.kind ≠ .ack then .error .malformed
  else if outLen < ACK_LEN then .error .bufferTooSmall
  else .ok (headerBytes ack.flags (UInt8.ofNat ack.triggerChannel.val) ack.triggerSeq ++
    (List.finRange CHANNEL_COUNT).flatMap fun c => be32 (ack.cumulative c).toNat)

/-- Write a probe, padded so that the datagram has exactly its size. -/
def encodeProbe (probe : Packet.Probe) (outLen : ℕ) : Except Error Str :=
  if probe.id = SEQ_MAX ∨ !probeSize probe.size then .error .malformed
  else if outLen < probe.size - ENVELOPE_LEN then .error .bufferTooSmall
  else .ok (headerBytes FLAG_PROBE 0 probe.id ++ be 2 probe.size ++
    List.replicate (probe.size - ENVELOPE_LEN - (HEADER_LEN + 2)) 0)

def encodeProbeAck (ack : Packet.ProbeAck) (outLen : ℕ) : Except Error Str :=
  if ack.id = SEQ_MAX ∨ !probeSize ack.size then .error .malformed
  else if outLen < HEADER_LEN + 2 then .error .bufferTooSmall
  else .ok (headerBytes FLAG_PROBE_ACK 0 ack.id ++ be 2 ack.size)

@[simp] theorem length_headerBytes (flags channel : UInt8) (seq : UInt32) :
    (headerBytes flags channel seq).length = HEADER_LEN := rfl

@[simp] theorem Data.length_bytes (data : Data) :
    data.bytes.length = HEADER_LEN + data.body.length := by
  rw [Data.bytes, List.length_append, length_headerBytes]

theorem length_encodeAck {ack : Ack} {outLen : ℕ} {bytes : Str}
    (h : encodeAck ack outLen = .ok bytes) : bytes.length = ACK_LEN := by
  unfold encodeAck at h
  split_ifs at h
  cases h
  simp [List.length_flatMap, ACK_LEN, HEADER_LEN, CHANNEL_COUNT]

theorem length_encodeProbeAck {ack : Packet.ProbeAck} {outLen : ℕ} {bytes : Str}
    (h : encodeProbeAck ack outLen = .ok bytes) : bytes.length = HEADER_LEN + 2 := by
  unfold encodeProbeAck at h
  split_ifs at h
  cases h
  simp

end OpenStream.Lowlat
