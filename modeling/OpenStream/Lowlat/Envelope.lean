import OpenStream.Lowlat.Packet

/-!
# The record envelope

Every media datagram is a record: three bytes of magic, a counter of eight, a size nobody reads, the
tag and the ciphertext. Both directions of a session share one key, and the nonce is a prefix and the
counter, so the counter's top bit says who sealed the record.

* **`Envelope.open_seal`**: what was sealed is opened.
-/

namespace OpenStream.Lowlat

open Bytes List

/-! ## Directions -/

/-- Which side of a session sealed a record. -/
inductive Direction
  | host
  | guest
  deriving DecidableEq

namespace Direction

def sealBit : Direction → UInt64
  | .host => 0
  | .guest => (1 : UInt64) <<< 63

def opposite : Direction → Direction
  | .host => .guest
  | .guest => .host

theorem ne_opposite (d : Direction) : d ≠ d.opposite := by
  cases d <;> decide

end Direction

def MAGIC : Str := [0x17, 0xFE, 0xFD]
def NONCE_OFFSET : ℕ := 3
def TAG_OFFSET : ℕ := 13
def TAG_LEN : ℕ := 16
def CIPHERTEXT_OFFSET : ℕ := 29
def SIZE_FIELD_BIAS : ℕ := 45

/-- The direction bit of a received datagram, if it is long enough to have a counter. -/
def Direction.fromDatagram (datagram : Str) : Option Direction :=
  if datagram.length < NONCE_OFFSET + 8 then none
  else
    match datagram[NONCE_OFFSET]? with
    | none => none
    | some byte => some (if byte &&& 0x80 = 0 then .host else .guest)

/-! ## Sealing and opening -/

/-- Authenticated encryption under one key. -/
structure Aead where
  /-- The ciphertext and the tag for a nonce and a plaintext. -/
  encrypt : Str → Str → Option (Str × Str)
  /-- The plaintext for a nonce, a ciphertext and a tag. -/
  decrypt : Str → Str → Str → Option Str
  length_ciphertext : ∀ {nonce plaintext body tag},
    encrypt nonce plaintext = some (body, tag) → body.length = plaintext.length
  length_tag : ∀ {nonce plaintext body tag},
    encrypt nonce plaintext = some (body, tag) → tag.length = TAG_LEN
  decrypt_encrypt : ∀ {nonce plaintext body tag},
    encrypt nonce plaintext = some (body, tag) → decrypt nonce body tag = some plaintext

/-- Encryption that hides nothing, to run examples with. -/
def Aead.clear : Aead where
  encrypt _ plaintext := some (plaintext, replicate TAG_LEN 0)
  decrypt _ body _ := some body
  length_ciphertext h := by cases h; rfl
  length_tag h := by cases h; rfl
  decrypt_encrypt h := by cases h; rfl

/-- One session's key and the nonce prefix that came with it. -/
structure Envelope where
  keyed : Aead
  noncePrefix : Str

structure Opened where
  counter : UInt64
  cleartext : Str
  deriving DecidableEq

def counterOf (datagram : Str) : UInt64 :=
  UInt64.ofNat (ofBe ((datagram.drop NONCE_OFFSET).take 8))

namespace Envelope

variable (e : Envelope)

def nonceBytes (counter : UInt64) : Str := e.noncePrefix ++ be 8 counter.toNat

def sealInPlace (counter : UInt64) (plaintext : Str) (outLen : ℕ) : Except Error Str :=
  let total := plaintext.length + ENVELOPE_LEN
  if MAX_DATAGRAM < total then .error .oversized
  else if outLen < total then .error .bufferTooSmall
  else
    match e.keyed.encrypt (e.nonceBytes counter) plaintext with
    | none => .error .decrypt
    | some (body, tag) =>
      .ok (MAGIC ++ be 8 counter.toNat ++ be 2 (plaintext.length + SIZE_FIELD_BIAS) ++ tag ++ body)

def open_ (datagram : Str) (outLen : ℕ) : Except Error Opened :=
  if datagram.length < ENVELOPE_LEN then .error .shortDatagram
  else if outLen < datagram.length - ENVELOPE_LEN then .error .bufferTooSmall
  else
    let counter := counterOf datagram
    match e.keyed.decrypt (e.nonceBytes counter) (datagram.drop CIPHERTEXT_OFFSET)
        ((datagram.drop TAG_OFFSET).take TAG_LEN) with
    | none => .error .decrypt
    | some cleartext => .ok ⟨counter, cleartext⟩

variable {e} {counter : UInt64} {plaintext datagram : Str} {outLen : ℕ}

section

variable (h : e.sealInPlace counter plaintext outLen = .ok datagram)

include h

theorem seal_ok :
    plaintext.length + ENVELOPE_LEN ≤ MAX_DATAGRAM ∧ plaintext.length + ENVELOPE_LEN ≤ outLen ∧
      ∃ body tag, e.keyed.encrypt (e.nonceBytes counter) plaintext = some (body, tag) ∧
        datagram = MAGIC ++ be 8 counter.toNat ++
          be 2 (plaintext.length + SIZE_FIELD_BIAS) ++ tag ++ body := by
  simp only [sealInPlace] at h
  split_ifs at h with hmax hout
  split at h
  · cases h
  · next body tag hk =>
    cases h
    exact ⟨Nat.le_of_not_lt hmax, Nat.le_of_not_lt hout, body, tag, hk, rfl⟩

theorem length_seal : datagram.length = plaintext.length + ENVELOPE_LEN := by
  obtain ⟨-, -, body, tag, hk, rfl⟩ := seal_ok h
  simp only [length_append, length_be, e.keyed.length_tag hk, e.keyed.length_ciphertext hk]
  simp only [MAGIC, TAG_LEN, ENVELOPE_LEN, length_cons, length_nil]
  omega

theorem counterOf_seal : counterOf datagram = counter := by
  obtain ⟨-, -, body, tag, -, rfl⟩ := seal_ok h
  have hfield : ((MAGIC ++ be 8 counter.toNat ++ be 2 (plaintext.length + SIZE_FIELD_BIAS) ++ tag ++
      body).drop NONCE_OFFSET).take 8 = be 8 counter.toNat := by
    simp only [append_assoc]
    rw [drop_append_of_le_length (by decide), drop_of_length_le (by decide),
      nil_append, take_append_of_le_length (by simp), take_of_length_le (by simp)]
  rw [counterOf, hfield, ofBe_be counter.toNat_lt, UInt64.ofNat_toNat]

/-- **What was sealed is opened.** -/
theorem open_seal {scratchLen : ℕ} (hs : plaintext.length ≤ scratchLen) :
    e.open_ datagram scratchLen = .ok ⟨counter, plaintext⟩ := by
  have hlen := length_seal h
  have hcounter := counterOf_seal h
  obtain ⟨-, -, body, tag, hk, hd⟩ := seal_ok h
  have htag := e.keyed.length_tag hk
  have hbody : datagram.drop CIPHERTEXT_OFFSET = body := by
    rw [hd]
    apply drop_left'
    simp [htag, MAGIC, TAG_LEN, CIPHERTEXT_OFFSET]
  have htagged : (datagram.drop TAG_OFFSET).take TAG_LEN = tag := by
    rw [hd, append_assoc _ tag body, drop_left' (by simp [MAGIC, TAG_OFFSET]),
      take_left' htag]
  rw [open_, if_neg (by omega), if_neg (by omega)]
  simp [hcounter, hbody, htagged, e.keyed.decrypt_encrypt hk]

end

theorem open_seal_clear : let e : Envelope := ⟨.clear, [0, 0, 0, 0]⟩
    ∃ datagram, e.sealInPlace 7 [1, 2] 99 = .ok datagram ∧ e.open_ datagram 2 = .ok ⟨7, [1, 2]⟩ := by
  intro e
  have hseal : e.sealInPlace 7 [1, 2] 99 = .ok _ := rfl
  exact ⟨_, hseal, open_seal hseal (by decide)⟩

/-! ## The direction of a record -/

theorem top_bit (b : UInt8) : b &&& 0x80 = 0 ↔ b.toNat < 128 := by
  have key : ∀ n < 256, n &&& 128 = 0 ↔ n < 128 := by decide +kernel
  rw [← key b.toNat b.toNat_lt, ← UInt8.toNat_inj, UInt8.toNat_and]
  rfl

theorem fromDatagram_seal (h : e.sealInPlace counter plaintext outLen = .ok datagram) :
    Direction.fromDatagram datagram =
      some (if counter.toNat < 2 ^ 63 then .host else .guest) := by
  have hlen := length_seal h
  obtain ⟨-, -, body, tag, -, hd⟩ := seal_ok h
  have hbyte : datagram[NONCE_OFFSET]? = some (UInt8.ofNat (counter.toNat / 256 ^ 7)) := by
    rw [hd, be_succ 7]
    rfl
  have hlt := counter.toNat_lt
  rw [Direction.fromDatagram, if_neg (by rw [hlen]; simp only [NONCE_OFFSET, ENVELOPE_LEN]; omega),
    hbyte]
  have htop : UInt8.ofNat (counter.toNat / 256 ^ 7) &&& 0x80 = 0 ↔ counter.toNat < 2 ^ 63 := by
    rw [top_bit, UInt8.toNat_ofNat']
    omega
  by_cases hc : counter.toNat < 2 ^ 63
  · simp only [if_pos hc, if_pos (htop.mpr hc)]
  · simp only [if_neg hc, if_neg fun hb => hc (htop.mp hb)]

end Envelope

namespace Direction

theorem toNat_sealBit_guest : (sealBit .guest).toNat = 2 ^ 63 := by
  decide +kernel

theorem toNat_or_sealBit (d : Direction) {tx : UInt64} (h : tx.toNat < 2 ^ 63) :
    (tx ||| d.sealBit).toNat = tx.toNat + d.sealBit.toNat := by
  cases d with
  | host => simp [sealBit]
  | guest =>
    rw [UInt64.toNat_or, toNat_sealBit_guest, Nat.or_comm]
    have := Nat.two_pow_add_eq_or_of_lt h 1
    rw [Nat.mul_one] at this
    omega

theorem fromDatagram_sealed (d : Direction) {e : Envelope} {tx : UInt64} {plaintext datagram : Str}
    {outLen : ℕ} (htx : tx.toNat < 2 ^ 63)
    (h : e.sealInPlace (tx ||| d.sealBit) plaintext outLen = .ok datagram) :
    fromDatagram datagram = some d := by
  rw [Envelope.fromDatagram_seal h, toNat_or_sealBit d htx]
  cases d with
  | host =>
    have hbit : (sealBit .host).toNat = 0 := rfl
    rw [hbit, Nat.add_zero, if_pos htx]
  | guest =>
    rw [toNat_sealBit_guest, if_neg (by omega)]

end Direction

end OpenStream.Lowlat
