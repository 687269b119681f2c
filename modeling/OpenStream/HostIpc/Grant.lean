import OpenStream.HostIpc.Token
import OpenStream.HostIpc.Wire

/-!
# Session grants

What the control plane approved, with a tag under a key that it shares with the machine. The keyed
hash is a parameter.
-/

namespace OpenStream.HostIpc

open Bytes

def TAG_LEN : ℕ := 32

def GRANT_TAG : ℕ := 0xA1

def DOMAIN : Str :=
  [111, 112, 101, 110, 115, 116, 114, 101, 97, 109, 47, 115, 101, 115, 115, 105, 111, 110, 45, 103,
    114, 97, 110, 116, 47, 118, 49]

/-- One approved session. Its strings are their bytes. -/
structure SessionGrant where
  sessionId : Str
  requesterDeviceId : Str
  targetDeviceId : Str
  capabilities : Capabilities
  issuedAtMs : ℕ
  expiresAtMs : ℕ
  nonce : ℕ
  deriving DecidableEq

inductive GrantError
  | malformed
  | badTag
  | expired
  | notYetValid
  | inverted
  | wrongDevice
  deriving DecidableEq

def constantTimeEq (left right : Str) : Bool :=
  if left.length ≠ right.length then false
  else (left.zip right).foldl (fun diff x => diff ||| (x.1 ^^^ x.2)) 0 = 0

def readString : Reader Str := do
  let bytes ← Reader.bytes
  if validUtf8 bytes then return bytes else throw .truncated

namespace SessionGrant

def fields (g : SessionGrant) : Str :=
  Writer.bytes g.sessionId ++ Writer.bytes g.requesterDeviceId ++ Writer.bytes g.targetDeviceId ++
    Writer.u32 g.capabilities.bits.toNat ++ Writer.u64 g.issuedAtMs ++ Writer.u64 g.expiresAtMs ++
    Writer.u128 g.nonce

def signingInput (g : SessionGrant) : Str :=
  be 1 GRANT_TAG ++ Writer.bytes DOMAIN ++ g.fields

variable (hmac : Str → Str → Str)

def tag (g : SessionGrant) (key : Str) : Str := hmac key g.signingInput

def encode (g : SessionGrant) (key : Str) : Str :=
  be 1 GRANT_TAG ++ g.fields ++ Writer.bytes (g.tag hmac key)

def read : Reader (SessionGrant × Str) := do
  if (← Reader.tag) ≠ GRANT_TAG then throw .truncated
  let sessionId ← readString
  let requesterDeviceId ← readString
  let targetDeviceId ← readString
  let capabilities := Capabilities.fromBitsTruncate (BitVec.ofNat 32 (← Reader.u32))
  let issuedAtMs ← Reader.u64
  let expiresAtMs ← Reader.u64
  let nonce ← Reader.u128
  let presented ← Reader.bytes
  Reader.finish
  return (⟨sessionId, requesterDeviceId, targetDeviceId, capabilities, issuedAtMs, expiresAtMs,
    nonce⟩, presented)

def decodeAndVerify (bytes key : Str) (now : ℕ) (thisDeviceId : Str) :
    Except GrantError SessionGrant :=
  match read bytes with
  | .error _ => .error .malformed
  | .ok ((grant, presented), _) =>
    if presented.length ≠ TAG_LEN then .error .malformed
    else if !constantTimeEq presented (grant.tag hmac key) then .error .badTag
    else if grant.expiresAtMs < grant.issuedAtMs then .error .inverted
    else if now < grant.issuedAtMs then .error .notYetValid
    else if grant.expiresAtMs < now then .error .expired
    else if grant.targetDeviceId ≠ thisDeviceId then .error .wrongDevice
    else .ok grant

variable {hmac}

theorem le_of_decodeAndVerify {bytes key : Str} {now : ℕ} {thisDeviceId : Str} {g : SessionGrant}
    (h : decodeAndVerify hmac bytes key now thisDeviceId = .ok g) : now ≤ g.expiresAtMs := by
  unfold decodeAndVerify at h
  split at h
  · cases h
  · split_ifs at h
    cases h
    omega

end SessionGrant

end OpenStream.HostIpc
