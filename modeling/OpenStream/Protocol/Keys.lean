import OpenStream.Lib.Bytes

/-!
# Session keys

Two ends exchange public keys, and each derives one key to seal with and one to open with. The
Diffie-Hellman function and the hash are parameters.

* **`KeyExchange.keys_mirror`**
-/

namespace OpenStream.Protocol

open Bytes List

/-- A Diffie-Hellman function that commutes, and in which the zero point absorbs. -/
structure KeyExchange (Secret : Type) where
  publicKey : Secret → Str
  diffieHellman : Secret → Str → Str
  comm : ∀ a b, diffieHellman a (publicKey b) = diffieHellman b (publicKey a)
  zero : ∀ a, diffieHellman a (replicate 32 0) = replicate 32 0

structure DirectionalKeys where
  tx : Str
  rx : Str

def DirectionalKeys.swap (k : DirectionalKeys) : DirectionalKeys := ⟨k.rx, k.tx⟩

inductive KeyError
  | weakPublicKey

namespace KeyExchange

variable {Secret : Type} (hash : Str → Str) (x : KeyExchange Secret) (a b : Secret)

def kdfLabel (label shared lesser greater : Str) : Str :=
  hash (label ++ [0] ++ shared ++ lesser ++ greater)

def LESSER_TO_GREATER : Str := "OpenStream X25519 AES-256-GCM v2 lesser-to-greater\x00".toUTF8.toList

def GREATER_TO_LESSER : Str := "OpenStream X25519 AES-256-GCM v2 greater-to-lesser\x00".toUTF8.toList

def deriveKeysInner (peer : Str) (sessionId : Option Str) : Except KeyError DirectionalKeys :=
  if peer = replicate 32 0 then .error .weakPublicKey
  else if x.diffieHellman a peer = replicate 32 0 then .error .weakPublicKey
  else
    let own := x.publicKey a
    let shared := x.diffieHellman a peer
    let (lesser, greater) := if own ≤ peer then (own, peer) else (peer, own)
    let keyLg := kdfLabel hash (LESSER_TO_GREATER ++ sessionId.getD []) shared lesser greater
    let keyGl := kdfLabel hash (GREATER_TO_LESSER ++ sessionId.getD []) shared lesser greater
    .ok (if own ≤ peer then ⟨keyLg, keyGl⟩ else ⟨keyGl, keyLg⟩)

variable {a b}

/-- **The two ends of an exchange derive the same keys**, each sealing with what the other opens
with, or both refuse. -/
theorem keys_mirror (hne : x.publicKey a ≠ x.publicKey b) (sessionId : Option Str) :
    x.deriveKeysInner hash a (x.publicKey b) sessionId =
      (x.deriveKeysInner hash b (x.publicKey a) sessionId).map .swap := by
  have hcomm := x.comm a b
  by_cases hweak : x.diffieHellman a (x.publicKey b) = replicate 32 0
  · simp only [deriveKeysInner, ← hcomm, hweak, if_true, ite_self]
    rfl
  · have hb : x.publicKey b ≠ replicate 32 0 := fun h => hweak (h ▸ x.zero a)
    have ha : x.publicKey a ≠ replicate 32 0 := fun h => hweak (hcomm.trans (h ▸ x.zero b))
    simp only [deriveKeysInner, ← hcomm, hweak, ha, hb, if_false]
    by_cases hle : x.publicKey a ≤ x.publicKey b
    · have hnot : ¬x.publicKey b ≤ x.publicKey a := fun h => hne (List.le_antisymm hle h)
      simp only [hle, hnot, if_true, if_false]
      rfl
    · have hle' := (List.le_total (x.publicKey a) (x.publicKey b)).resolve_left hle
      simp only [hle, hle', if_true, if_false]
      rfl

/-- Public keys of one byte. -/
def single : KeyExchange Bool where
  publicKey secret := [secret.toUInt8]
  diffieHellman _ peer := if peer = replicate 32 0 then peer else [7]
  comm := by decide
  zero _ := if_pos rfl

theorem keys_mirror_single : single.deriveKeysInner id true [0] none =
    (single.deriveKeysInner id false [1] none).map .swap :=
  keys_mirror id single (a := true) (b := false) (by decide) none

end KeyExchange

end OpenStream.Protocol
