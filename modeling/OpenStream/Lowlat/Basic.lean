import OpenStream.Lib.Serial
import OpenStream.Lib.Bytes
import OpenStream.Lib.F64

/-!
# The lowlat core: sequence numbers, errors and packets

* `Seq.gt`, `Seq.ge`, `Seq.lt`, `Seq.le`, `Seq.distance`: the serial arithmetic of `seq.rs`, with the
  comparison read as a signed number; `Seq.gt_eq`, `Seq.ge_eq` connect it to `Serial`.
-/

namespace OpenStream.Lowlat

open Bytes

/-! ## Sequence numbers -/

namespace Seq

def gt (a b : UInt32) : Bool := decide (0 < (a - b).toInt32)

def ge (a b : UInt32) : Bool := decide (0 ≤ (a - b).toInt32)

def lt (a b : UInt32) : Bool := gt b a

def le (a b : UInt32) : Bool := ge b a

def distance (a b : UInt32) : UInt32 := b - a

theorem toInt_toInt32 (x : UInt32) :
    x.toInt32.toInt = if x.toNat < 2 ^ 31 then (x.toNat : ℤ) else (x.toNat : ℤ) - 2 ^ 32 := by
  have hx := x.toNat_lt
  have h : x.toInt32.toInt = x.toBitVec.toInt := rfl
  rw [h, BitVec.toInt_eq_toNat_cond, UInt32.toNat_toBitVec]
  split_ifs <;> omega

theorem gt_eq (a b : UInt32) : gt a b = Serial.sgt a b := by
  unfold gt Serial.sgt
  have h := (a - b).toNat_lt
  rw [decide_eq_decide, Int32.lt_iff_toInt_lt, toInt_toInt32, Int32.toInt_zero]
  split_ifs <;> omega

theorem ge_eq (a b : UInt32) : ge a b = Serial.sge a b := by
  unfold ge Serial.sge
  have h := (a - b).toNat_lt
  rw [decide_eq_decide, Int32.le_iff_toInt_le, toInt_toInt32, Int32.toInt_zero]
  split_ifs <;> omega

end Seq

/-! ## Errors -/

/-- Every way the core can refuse an input. -/
inductive Error
  | shortDatagram
  | decrypt
  | shortPacket
  | malformed
  | shortAck
  | bufferTooSmall
  | badLength
  | oversized
  | badKeyLength
  deriving DecidableEq, Repr

/-! ## Packets -/

def HEADER_LEN : ℕ := 7

abbrev CHANNEL_COUNT : ℕ := 19

/-- A channel index, as `parse` and the ring constructors let it through. -/
abbrev Channel : Type := Fin CHANNEL_COUNT

instance : NeZero CHANNEL_COUNT := ⟨by decide⟩

def SEQ_MAX : UInt32 := UInt32.ofNat (2 ^ 32 - 1)

/-- A data packet carrying one fragment of a message. -/
structure Data where
  channel : Channel
  seq : UInt32
  last : Bool
  body : Str
  deriving DecidableEq

/-- Acknowledgements and keepalives share a layout and differ only in kind. -/
inductive AckKind
  | ack
  | keepalive
  deriving DecidableEq, Repr

/-- One packet acknowledging every channel at once. -/
structure Ack where
  kind : AckKind
  nack : Bool
  triggerChannel : Channel
  triggerSeq : UInt32
  cumulative : Channel → UInt32
  reported : ℕ

/-- The checks of `packet::encode_data` on a buffer of `outLen` bytes, and the bytes it writes. -/
def encodeData (outLen : ℕ) (data : Data) : Except Error ℕ :=
  if data.seq = SEQ_MAX then .error .malformed
  else if outLen < HEADER_LEN + data.body.length then .error .bufferTooSmall
  else .ok (HEADER_LEN + data.body.length)

/-- The check of `packet::parse` on the sequence field, which data and acknowledgements share. -/
def seqAccepted (seq : UInt32) : Bool := seq ≠ SEQ_MAX

end OpenStream.Lowlat
