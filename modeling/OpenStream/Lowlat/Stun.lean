import OpenStream.Lowlat.Basic

/-!
# Connectivity checks, as bytes

Binding requests and responses share the media socket with the records. A message is a header, its
attributes, and, where it carries credentials, an integrity attribute and a fingerprint at its end.
Both are computed over a message whose length field has another value than the one on the wire.

* **`headed_encodeBindingRequest`** and its like: the type and the transaction identifier of what is
  written.
* **`encodes_bindingRequest`** and its like: with `MAX_MESSAGE` bytes of room nothing fails, except a
  check whose fragments are over `MAX_UFRAG`.
-/

namespace OpenStream.Lowlat.Stun

open Bytes

variable {tid : TransactionId} {outLen : ℕ} {hashes : Hashes} {password : Str}

/-- Fixed header: type, length, cookie, transaction identifier. -/
def HEADER_LEN : ℕ := 20
/-- Constant every message carries, and the seed for address obfuscation. -/
def MAGIC_COOKIE : ℕ := 0x2112A442
/-- Shortest authenticated message: header, integrity, fingerprint. -/
def MIN_MESSAGE : ℕ := 52
def MAX_MESSAGE : ℕ := 256
def MAX_UFRAG : ℕ := 32

def TYPE_BINDING_REQUEST : ℕ := 0x0001
def TYPE_BINDING_SUCCESS : ℕ := 0x0101

def ATTR_USERNAME : ℕ := 0x0006
def ATTR_MESSAGE_INTEGRITY : ℕ := 0x0008
def ATTR_XOR_MAPPED_ADDRESS : ℕ := 0x0020
def ATTR_PRIORITY : ℕ := 0x0024
def ATTR_FINGERPRINT : ℕ := 0x8028
def ATTR_ICE_CONTROLLED : ℕ := 0x8029
def ATTR_NETWORK_COST : ℕ := 0xC057

def INTEGRITY_LEN : ℕ := 24
def FINGERPRINT_LEN : ℕ := 8
def TRAILER_LEN : ℕ := INTEGRITY_LEN + FINGERPRINT_LEN

def FINGERPRINT_XOR : UInt32 := 0x5354554E
def PRIORITY_VALUE : ℕ := 0x6E001EFF
def NETWORK_COST_VALUE : ℕ := 0x00000032

abbrev TransactionId : Type := Vector UInt8 12

/-! ## Digests -/

structure Hashes where
  sha1 : Str → Vector UInt8 20
  hmacSha1 : Str → Str → Vector UInt8 20

def crcStep (crc : UInt32) : UInt32 := (crc >>> 1) ^^^ (0xEDB88320 &&& (0 - (crc &&& 1)))

def crc32 (bytes : Str) : UInt32 :=
  bytes.foldl (fun crc byte => Nat.repeat crcStep 8 (crc ^^^ byte.toUInt32)) 0xFFFFFFFF ^^^
    0xFFFFFFFF

/-! ## Addresses -/

inductive SocketAddr
  | v4 (octets : Vector UInt8 4) (port : UInt16)
  | v6 (octets : Vector UInt8 16) (port : UInt16) (flowinfo scopeId : UInt32)
  deriving DecidableEq

def toIpv4Mapped (octets : Vector UInt8 16) : Option (Vector UInt8 4) :=
  match octets.toList with
  | [0, 0, 0, 0, 0, 0, 0, 0, 0, 0, 0xFF, 0xFF, a, b, c, d] => some #v[a, b, c, d]
  | _ => none

def canonical : SocketAddr → SocketAddr
  | .v6 octets port flowinfo scopeId =>
    match toIpv4Mapped octets with
    | some v4 => .v4 v4 port
    | none => .v6 octets port flowinfo scopeId
  | .v4 octets port => .v4 octets port

theorem canonical_canonical (addr : SocketAddr) : canonical (canonical addr) = canonical addr := by
  cases addr with
  | v4 octets port => rfl
  | v6 octets port flowinfo scopeId =>
    cases h : toIpv4Mapped octets with
    | some v4 => simp only [canonical, h]
    | none => simp only [canonical, h]

def mask (tid : TransactionId) : Str := be 4 MAGIC_COOKIE ++ tid.toList

def encodeMapped (addr : SocketAddr) (tid : TransactionId) : Str :=
  match canonical addr with
  | .v4 octets port =>
    [0, 0x01] ++ be 2 (port ^^^ 0x2112).toNat ++
      List.zipWith (· ^^^ ·) octets.toList (mask tid)
  | .v6 octets port _ _ =>
    [0, 0x02] ++ be 2 (port ^^^ 0x2112).toNat ++
      List.zipWith (· ^^^ ·) octets.toList (mask tid)

def between (bytes : Str) (start stop : ℕ) : Option Str :=
  if start ≤ stop ∧ stop ≤ bytes.length then some ((bytes.drop start).take (stop - start)) else none

/-- `n` octets from `start`, with the mask taken off. -/
def unmasked (n : ℕ) (value : Str) (tid : TransactionId) : Option (Vector UInt8 n) :=
  (between value 4 (4 + n)).bind fun raw =>
    let octets := List.zipWith (· ^^^ ·) raw (mask tid)
    if h : octets.length = n then some ⟨octets.toArray, by simpa using h⟩ else none

def decodeMapped (value : Str) (tid : TransactionId) : Option SocketAddr :=
  match value with
  | _ :: family :: high :: low :: _ =>
    let port := UInt16.ofNat (ofBe [high, low]) ^^^ 0x2112
    if family = 0x01 then (unmasked 4 value tid).map fun octets => .v4 octets port
    else if family = 0x02 then
      (unmasked 16 value tid).map fun octets => canonical (.v6 octets port 0 0)
    else none
  | _ => none

/-! ## Reading -/

def be16At (bytes : Str) (offset : ℕ) : Except Error ℕ :=
  match between bytes offset (offset + 2) with
  | some slot => .ok (ofBe slot)
  | none => .error .malformed

def be32At (bytes : Str) (offset : ℕ) : Except Error ℕ :=
  match between bytes offset (offset + 4) with
  | some slot => .ok (ofBe slot)
  | none => .error .malformed

/-- HMAC-SHA1 over the message up to `stop`, with a length that ends after the integrity
attribute. -/
def integrityOf (hashes : Hashes) (bytes : Str) (stop : ℕ) (password : Str) :
    Except Error (Vector UInt8 20) :=
  if 2 ^ 16 ≤ stop + 4 then .error .oversized
  else
    match between bytes 0 2, between bytes 4 stop with
    | some head, some body => .ok (hashes.hmacSha1 password (head ++ be 2 (stop + 4) ++ body))
    | _, _ => .error .malformed

/-- Fingerprint over the message through the integrity attribute, with the length on the wire. -/
def fingerprintOf (bytes : Str) (stop : ℕ) : Except Error UInt32 :=
  if 2 ^ 16 ≤ stop + 12 then .error .oversized
  else
    match between bytes 0 2, between bytes 4 (stop + INTEGRITY_LEN) with
    | some head, some body => .ok (crc32 (head ++ be 2 (stop + 12) ++ body) ^^^ FINGERPRINT_XOR)
    | _, _ => .error .malformed

/-- What a well-formed message turned out to be. -/
inductive Method
  | bindingRequest
  | bindingSuccess
  deriving DecidableEq

structure Message where
  bytes : Str
  method : Method
  tid : TransactionId
  /-- Offset of the integrity attribute, of a message that carries credentials. -/
  integrityAt : Option ℕ

/-- A walk over the attributes between the header and the trailer. -/
structure Attributes where
  bytes : Str
  offset : ℕ
  stop : ℕ
  done : Bool

/-- Bytes that fill a value of `len` up to a boundary of four. -/
def padding (len : ℕ) : ℕ := (4 - len % 4) % 4

namespace Attributes

def new (bytes : Str) (stop : ℕ) : Attributes := ⟨bytes, HEADER_LEN, stop, false⟩

def next (w : Attributes) : Option (Except Error (ℕ × Str × ℕ)) × Attributes :=
  if w.done || decide (w.stop < w.offset + 4) then (none, w)
  else
    let failed : Attributes := { w with done := true }
    match be16At w.bytes w.offset with
    | .error e => (some (.error e), failed)
    | .ok kind =>
      match be16At w.bytes (w.offset + 2) with
      | .error e => (some (.error e), failed)
      | .ok len =>
        if w.stop < w.offset + 4 + len then (some (.error .malformed), failed)
        else
          match between w.bytes (w.offset + 4) (w.offset + 4 + len) with
          | none => (some (.error .malformed), failed)
          | some value =>
            let past := w.offset + 4 + len + padding len
            (some (.ok (kind, value, past)), { w with offset := past })

/-- The offset past the last attribute. Every attribute has four bytes or more, so that `stop`
rounds are enough. -/
def reach : ℕ → Attributes → ℕ → Except Error ℕ
  | 0, _, reached => .ok reached
  | fuel + 1, w, reached =>
    match w.next with
    | (none, _) => .ok reached
    | (some (.error e), _) => .error e
    | (some (.ok (_, _, past)), w') => reach fuel w' past

def firstOf (wanted : ℕ) : ℕ → Attributes → Option Str
  | 0, _ => none
  | fuel + 1, w =>
    match w.next with
    | (some (.ok (kind, value, _)), w') =>
      if kind = wanted then some value else firstOf wanted fuel w'
    | _ => none

end Attributes

namespace Message

/-- Whether the trailer is where an authenticated message has it. -/
def trailerAt (datagram : Str) (offset : ℕ) : Bool :=
  be16At datagram offset matches .ok 0x0008 &&
  be16At datagram (offset + 2) matches .ok 20 &&
  be16At datagram (offset + INTEGRITY_LEN) matches .ok 0x8028 &&
  be16At datagram (offset + INTEGRITY_LEN + 2) matches .ok 4

/-- Classify and structurally validate a datagram; nothing is authenticated. -/
def parse (datagram : Str) : Except Error Message :=
  if datagram.length < HEADER_LEN ∨ MAX_MESSAGE < datagram.length then .error .malformed
  else
    let head := datagram.take HEADER_LEN
    match be16At head 0 with
    | .error e => .error e
    | .ok kind =>
      match (if kind = TYPE_BINDING_REQUEST then some Method.bindingRequest
          else if kind = TYPE_BINDING_SUCCESS then some Method.bindingSuccess else none) with
      | none => .error .malformed
      | some method =>
        if be32At head 4 ≠ .ok MAGIC_COOKIE then .error .malformed
        else if be16At head 2 ≠ .ok (datagram.length - HEADER_LEN) then .error .malformed
        else
          let identifier := (head.drop 8).take 12
          if h : identifier.length = 12 then
            let integrityAt :=
              if MIN_MESSAGE ≤ datagram.length ∧ trailerAt datagram (datagram.length - TRAILER_LEN)
              then some (datagram.length - TRAILER_LEN) else none
            let stop := integrityAt.getD datagram.length
            match (Attributes.new datagram stop).reach stop HEADER_LEN with
            | .error e => .error e
            | .ok reached =>
              if reached ≠ stop then .error .malformed
              else .ok ⟨datagram, method, ⟨identifier.toArray, by simpa using h⟩, integrityAt⟩
          else .error .malformed

variable (m : Message)

def sameDigest (mac carried : Str) : Bool :=
  (List.zipWith (· ^^^ ·) mac carried).foldl (· ||| ·) 0 = 0

/-- Whether the message authenticates under a password. -/
def verify (hashes : Hashes) (password : Str) : Bool :=
  match m.integrityAt with
  | none => false
  | some offset =>
    match be32At m.bytes (offset + INTEGRITY_LEN + 4), fingerprintOf m.bytes offset with
    | .ok expected, .ok actual =>
      if expected ≠ actual.toNat then false
      else
        match integrityOf hashes m.bytes offset password,
            between m.bytes (offset + 4) (offset + 24) with
        | .ok mac, some carried => sameDigest mac.toList carried
        | _, _ => false
    | _, _ => false

def attributesEnd : ℕ := m.integrityAt.getD m.bytes.length

/-- The reflexive address a peer observed for us. -/
def mappedAddress : Option SocketAddr :=
  ((Attributes.new m.bytes m.attributesEnd).firstOf ATTR_XOR_MAPPED_ADDRESS m.attributesEnd).bind
    fun value => decodeMapped value m.tid

end Message

/-! ## Writing -/

/-- What has been written into a buffer of `room` bytes. -/
structure Writer where
  room : ℕ
  written : Str

namespace Writer

def new (room : ℕ) : Writer := ⟨room, []⟩

variable (w : Writer)

def put (bytes : Str) : Except Error Writer :=
  if w.written.length + bytes.length ≤ w.room then .ok { w with written := w.written ++ bytes }
  else .error .bufferTooSmall

/-- The length is a placeholder until `close` knows where the trailer lands. -/
def header (kind : ℕ) (tid : TransactionId) : Except Error Writer := do
  let w ← w.put (be 2 kind)
  let w ← w.put (be 2 0)
  let w ← w.put (be 4 MAGIC_COOKIE)
  w.put tid.toList

def attributeHeader (kind len : ℕ) : Except Error Writer :=
  if 2 ^ 16 ≤ len then .error .oversized
  else do
    let w ← w.put (be 2 kind)
    w.put (be 2 len)

def pad (len : ℕ) : Except Error Writer := w.put (List.replicate (padding len) 0)

def attribute_ (kind : ℕ) (value : Str) : Except Error Writer := do
  let w ← w.attributeHeader kind value.length
  let w ← w.put value
  w.pad value.length

def withLength (bytes : Str) (len : ℕ) : Str := bytes.take 2 ++ be 2 len ++ bytes.drop 4

/-- The source's `seal`: integrity and fingerprint appended, and the length set. -/
def close (hashes : Hashes) (password : Str) : Except Error Str :=
  let stop := w.written.length
  let total := stop + TRAILER_LEN
  if MAX_MESSAGE < total then .error .oversized
  else if total < MIN_MESSAGE then .error .malformed
  else if w.room < total then .error .bufferTooSmall
  else
    let bytes := w.written ++ be 2 ATTR_MESSAGE_INTEGRITY ++ be 2 20
    match integrityOf hashes bytes stop password with
    | .error e => .error e
    | .ok mac =>
      let bytes := bytes ++ mac.toList ++ be 2 ATTR_FINGERPRINT ++ be 2 4
      match fingerprintOf bytes stop with
      | .error e => .error e
      | .ok crc => .ok (withLength (bytes ++ be 4 crc.toNat) (stop + 12))

end Writer

def encodeBindingRequest (hashes : Hashes) (outLen : ℕ) (tid : TransactionId)
    (localUfrag remoteUfrag tiebreaker password : Str) : Except Error Str :=
  if MAX_UFRAG < localUfrag.length ∨ MAX_UFRAG < remoteUfrag.length then .error .oversized
  else do
    let w ← (Writer.new outLen).header TYPE_BINDING_REQUEST tid
    let userLen := remoteUfrag.length + 1 + localUfrag.length
    let w ← w.attributeHeader ATTR_USERNAME userLen
    let w ← w.put remoteUfrag
    let w ← w.put [0x3A]
    let w ← w.put localUfrag
    let w ← w.pad userLen
    let w ← w.attribute_ ATTR_NETWORK_COST (be 4 NETWORK_COST_VALUE)
    let w ← w.attribute_ ATTR_ICE_CONTROLLED tiebreaker
    let w ← w.attribute_ ATTR_PRIORITY (be 4 PRIORITY_VALUE)
    w.close hashes password

def encodeReflexiveRequest (outLen : ℕ) (tid : TransactionId) : Except Error Str := do
  let w ← (Writer.new outLen).header TYPE_BINDING_REQUEST tid
  return Writer.withLength w.written 0

def encodeBindingResponse (hashes : Hashes) (outLen : ℕ) (tid : TransactionId)
    (observed : SocketAddr) (password : Str) : Except Error Str := do
  let w ← (Writer.new outLen).header TYPE_BINDING_SUCCESS tid
  let w ← w.attribute_ ATTR_XOR_MAPPED_ADDRESS (encodeMapped observed tid)
  w.close hashes password

/-! ## What is written -/

theorem bind_ok {α β : Type} {x : Except Error α} {f : α → Except Error β} {b : β}
    (h : (x >>= f) = .ok b) : ∃ a, x = .ok a ∧ f a = .ok b := by
  cases x with
  | error e => cases h
  | ok a => exact ⟨a, rfl, h⟩

namespace Writer

variable {w w' : Writer} {bytes : Str}

theorem put_ok (h : w.put bytes = .ok w') : w'.written = w.written ++ bytes := by
  rw [put] at h
  split_ifs at h
  cases h
  rfl

theorem put_extends (h : w.put bytes = .ok w') : w.written <+: w'.written :=
  ⟨bytes, (put_ok h).symm⟩

theorem header_ok {kind : ℕ} {tid : TransactionId} (h : w.header kind tid = .ok w') :
    w'.written = w.written ++ be 2 kind ++ be 2 0 ++ be 4 MAGIC_COOKIE ++ tid.toList := by
  obtain ⟨w₁, h₁, h⟩ := bind_ok h
  obtain ⟨w₂, h₂, h⟩ := bind_ok h
  obtain ⟨w₃, h₃, h⟩ := bind_ok h
  rw [put_ok h, put_ok h₃, put_ok h₂, put_ok h₁]

theorem attributeHeader_extends {kind len : ℕ} (h : w.attributeHeader kind len = .ok w') :
    w.written <+: w'.written := by
  rw [attributeHeader] at h
  split_ifs at h
  obtain ⟨w₁, h₁, h⟩ := bind_ok h
  exact (put_extends h₁).trans (put_extends h)

theorem attribute_extends {kind : ℕ} {value : Str} (h : w.attribute_ kind value = .ok w') :
    w.written <+: w'.written := by
  obtain ⟨w₁, h₁, h⟩ := bind_ok h
  obtain ⟨w₂, h₂, h⟩ := bind_ok h
  exact ((attributeHeader_extends h₁).trans (put_extends h₂)).trans (put_extends h)

theorem close_ok {hashes : Hashes} {password : Str}
    (h : w.close hashes password = .ok bytes) :
    ∃ trailer, trailer ≠ [] ∧
      bytes = withLength (w.written ++ trailer) (w.written.length + 12) := by
  simp only [close] at h
  split_ifs at h
  split at h
  · cases h
  split at h
  · cases h
  · cases h
    refine ⟨_, ?_, by simp only [List.append_assoc]; rfl⟩
    simp [be]

end Writer

open Writer

structure Headed (kind : ℕ) (tid : TransactionId) (bytes : Str) : Prop where
  type : bytes.take 2 = be 2 kind
  identifier : (bytes.drop 8).take 12 = tid.toList

theorem headed_withLength {kind : ℕ} {written : Str} (trailer : Str) (len : ℕ)
    (h : be 2 kind ++ be 2 0 ++ be 4 MAGIC_COOKIE ++ tid.toList <+: written) :
    Headed kind tid (withLength (written ++ trailer) len) ∧
      20 + trailer.length ≤ (withLength (written ++ trailer) len).length := by
  obtain ⟨rest, rfl⟩ := h
  refine ⟨⟨?_, ?_⟩, ?_⟩
  · simp [withLength, be]
  · simp [withLength, be]
  · simp [withLength, be]
    omega

theorem Writer.header_new {kind : ℕ} {w : Writer}
    (h : (new outLen).header kind tid = .ok w) :
    w.written = be 2 kind ++ be 2 0 ++ be 4 MAGIC_COOKIE ++ tid.toList :=
  header_ok h

variable {bytes : Str}

theorem headed_close {kind : ℕ} {w w' : Writer}
    (hw : (new outLen).header kind tid = .ok w)
    (hext : w.written <+: w'.written) (h : w'.close hashes password = .ok bytes) :
    Headed kind tid bytes ∧ 20 < bytes.length := by
  obtain ⟨trailer, htrailer, rfl⟩ := close_ok h
  rw [header_new hw] at hext
  obtain ⟨hhead, hlen⟩ := headed_withLength trailer (w'.written.length + 12) hext
  have := List.length_pos_of_ne_nil htrailer
  exact ⟨hhead, by omega⟩

/-- **A check is a binding request with attributes.** -/
theorem headed_encodeBindingRequest {localUfrag remoteUfrag tiebreaker : Str}
    (h : encodeBindingRequest hashes outLen tid localUfrag remoteUfrag tiebreaker password =
      .ok bytes) : Headed TYPE_BINDING_REQUEST tid bytes ∧ 20 < bytes.length := by
  rw [encodeBindingRequest] at h
  split_ifs at h
  obtain ⟨w, hw, h⟩ := bind_ok h
  obtain ⟨w₁, h₁, h⟩ := bind_ok h
  obtain ⟨w₂, h₂, h⟩ := bind_ok h
  obtain ⟨w₃, h₃, h⟩ := bind_ok h
  obtain ⟨w₄, h₄, h⟩ := bind_ok h
  obtain ⟨w₅, h₅, h⟩ := bind_ok h
  obtain ⟨w₆, h₆, h⟩ := bind_ok h
  obtain ⟨w₇, h₇, h⟩ := bind_ok h
  obtain ⟨w₈, h₈, h⟩ := bind_ok h
  refine headed_close hw ?_ h
  calc w.written <+: w₁.written := attributeHeader_extends h₁
    _ <+: w₂.written := put_extends h₂
    _ <+: w₃.written := put_extends h₃
    _ <+: w₄.written := put_extends h₄
    _ <+: w₅.written := put_extends h₅
    _ <+: w₆.written := attribute_extends h₆
    _ <+: w₇.written := attribute_extends h₇
    _ <+: w₈.written := attribute_extends h₈

theorem headed_encodeReflexiveRequest
    (h : encodeReflexiveRequest outLen tid = .ok bytes) :
    Headed TYPE_BINDING_REQUEST tid bytes ∧ bytes.length = 20 := by
  obtain ⟨w, hw, h⟩ := bind_ok h
  cases h
  rw [header_new hw]
  exact ⟨⟨by simp [withLength, be], by simp [withLength, be]⟩,
    by simp [withLength, be]⟩

theorem headed_encodeBindingResponse {observed : SocketAddr}
    (h : encodeBindingResponse hashes outLen tid observed password = .ok bytes) :
    Headed TYPE_BINDING_SUCCESS tid bytes ∧ 20 < bytes.length := by
  obtain ⟨w, hw, h⟩ := bind_ok h
  obtain ⟨w₁, h₁, h⟩ := bind_ok h
  exact headed_close hw (attribute_extends h₁) h

/-! ## Room that is enough -/

namespace Writer

/-- What follows once `m` bytes are written does not fail in a buffer of `MAX_MESSAGE`. -/
def Encodes (m : ℕ) (f : Writer → Except Error Str) : Prop :=
  ∀ w : Writer, w.written.length = m → MAX_MESSAGE ≤ w.room → ∃ bytes, f w = .ok bytes

variable {m k : ℕ} {f : Writer → Except Error Str}

theorem Encodes.put {bytes : Str} (hk : bytes.length = k) (hroom : m + k ≤ MAX_MESSAGE)
    (h : Encodes (m + k) f) : Encodes m fun w => w.put bytes >>= f := by
  intro w hm hmax
  have hput : w.put bytes = .ok { w with written := w.written ++ bytes } := if_pos (by omega)
  dsimp only
  rw [hput]
  exact h _ (by simp [hm, hk]) hmax

theorem Encodes.start {kind : ℕ} (h : Encodes 20 f) (hroom : MAX_MESSAGE ≤ outLen) {e : Error} :
    ((new outLen).header kind tid >>= f) ≠ .error e := by
  have hheader : Encodes 0 fun w => w.header kind tid >>= f := by
    simp only [header, bind_assoc]
    refine .put (length_be _ _) (by decide) (.put (length_be _ _) (by decide) ?_)
    exact .put (length_be _ _) (by decide) (.put Vector.length_toList (by decide) h)
  obtain ⟨bytes, hbytes⟩ := hheader (new outLen) rfl hroom
  exact fun he => by cases he.symm.trans hbytes

theorem Encodes.attributeHeader {kind len : ℕ} (hlen : len < 2 ^ 16) (hroom : m + 4 ≤ MAX_MESSAGE)
    (h : Encodes (m + 4) f) : Encodes m fun w => w.attributeHeader kind len >>= f := by
  simp only [Writer.attributeHeader, if_neg (Nat.not_le.mpr hlen), bind_assoc]
  exact .put (length_be _ _) (by omega) (.put (length_be _ _) (by omega) h)

theorem Encodes.attribute {kind : ℕ} {value : Str} (hk : 4 + value.length + padding value.length = k)
    (hroom : m + k ≤ MAX_MESSAGE) (h : Encodes (m + k) f) :
    Encodes m fun w => w.attribute_ kind value >>= f := by
  have hmax : MAX_MESSAGE = 256 := rfl
  simp only [attribute_, pad, bind_assoc]
  refine .attributeHeader (by omega) (by omega) (.put rfl (by omega)
    (.put List.length_replicate (by omega) ?_))
  rwa [add_assoc m, add_assoc m, hk]

theorem encodes_close (hmin : 20 ≤ m) (hmax : m + TRAILER_LEN ≤ MAX_MESSAGE) :
    Encodes m fun w => w.close hashes password := by
  intro w hm hroom
  have hconst : MAX_MESSAGE = 256 ∧ MIN_MESSAGE = 52 ∧ TRAILER_LEN = 32 ∧ INTEGRITY_LEN = 24 :=
    ⟨rfl, rfl, rfl, rfl⟩
  simp only [close, integrityOf, fingerprintOf, between]
  rw [if_neg (by omega), if_neg (by omega), if_neg (by omega), if_neg (by omega),
    if_pos (by simp), if_pos (by simp; omega)]
  dsimp only
  rw [if_neg (by omega), if_pos (by simp), if_pos (by simp; omega)]
  exact ⟨_, rfl⟩

end Writer

theorem encodes_bindingRequest {localUfrag remoteUfrag tiebreaker : Str}
    (hlocal : localUfrag.length ≤ MAX_UFRAG) (hremote : remoteUfrag.length ≤ MAX_UFRAG)
    (htie : tiebreaker.length = 8) (hroom : MAX_MESSAGE ≤ outLen) {e : Error} :
    encodeBindingRequest hashes outLen tid localUfrag remoteUfrag tiebreaker password ≠ .error e := by
  have hconst : MAX_MESSAGE = 256 ∧ MAX_UFRAG = 32 ∧ TRAILER_LEN = 32 := ⟨rfl, rfl, rfl⟩
  have hpad (len : ℕ) : padding len < 4 := Nat.mod_lt _ (by decide)
  have hpadded := hpad (remoteUfrag.length + 1 + localUfrag.length)
  have hwords : padding 4 = 0 ∧ padding 8 = 0 := by decide
  unfold encodeBindingRequest
  rw [if_neg (by omega)]
  refine Encodes.start ?_ hroom
  refine .attributeHeader (by omega) (by omega) ?_
  refine .put rfl (by omega) (.put List.length_singleton (by omega) (.put rfl (by omega) ?_))
  refine .put List.length_replicate (by omega) ?_
  refine .attribute (k := 8) (by simp [hwords]) (by omega) ?_
  refine .attribute (k := 12) (by simp [htie, hwords]) (by omega) ?_
  refine .attribute (k := 8) (by simp [hwords]) (by omega) ?_
  exact encodes_close (by omega) (by omega)

theorem encodes_reflexiveRequest (hroom : MAX_MESSAGE ≤ outLen) {e : Error} :
    encodeReflexiveRequest outLen tid ≠ .error e :=
  Encodes.start (fun w _ _ => ⟨withLength w.written 0, rfl⟩) hroom

theorem length_encodeMapped (tid) (addr : SocketAddr) :
    (encodeMapped addr tid).length = 8 ∨ (encodeMapped addr tid).length = 20 := by
  unfold encodeMapped mask
  split
  · simp
  · simp

theorem encodes_bindingResponse {observed : SocketAddr} (hroom : MAX_MESSAGE ≤ outLen) {e : Error} :
    encodeBindingResponse hashes outLen tid observed password ≠ .error e := by
  have hconst : MAX_MESSAGE = 256 ∧ TRAILER_LEN = 32 := ⟨rfl, rfl⟩
  have hpad : padding (encodeMapped observed tid).length = 0 := by
    rcases length_encodeMapped tid observed with h | h <;> rw [h] <;> rfl
  have hlen := length_encodeMapped tid observed
  exact Encodes.start (.attribute rfl (by omega) (encodes_close (by omega) (by omega))) hroom

end OpenStream.Lowlat.Stun
