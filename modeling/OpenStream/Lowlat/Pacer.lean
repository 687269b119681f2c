import OpenStream.Lib.F64
import Mathlib.Data.Nat.Notation

/-!
# The pacer

A token bucket for bulk video: credit grows with time at the path's rate, up to a burst of a few
datagrams, and a datagram leaves when there is credit for all of it. Timestamps come from the caller;
those that are not finite or that go backward create no credit.

* `Pacer.bytesPerMs`: a rate that is not positive and finite disables pacing.
-/

namespace OpenStream.Lowlat

structure PacerConfig (F : Type) where
  minDatagramBytes : ℕ
  maxDatagramBytes : ℕ
  maxBurstDatagrams : ℕ
  maxBurstTimeMs : F

section Constants

variable (F : Type) [Double F]

def MAX_BURST_DATAGRAMS : ℕ := 4

def MAX_BURST_TIME_MS : F := 5.0

def PacerConfig.compatibilityDefault : PacerConfig F :=
  ⟨1229, 2000, MAX_BURST_DATAGRAMS, MAX_BURST_TIME_MS F⟩

end Constants

/-- A token bucket. -/
structure Pacer (F : Type) where
  config : PacerConfig F
  rateMbps : F
  tokensBytes : F
  lastMs : F
  datagramBytes : ℕ

namespace Pacer

variable {F : Type} [Double F]

def new (nowMs : F) : Pacer F :=
  { config := .compatibilityDefault F
    rateMbps := 0.0
    tokensBytes := 0.0
    lastMs := nowMs
    datagramBytes := (PacerConfig.compatibilityDefault F).minDatagramBytes }

def bytesPerMs (rateMbps : F) : Option F :=
  let rate := rateMbps * 1000000.0 / 8.0 / 1000.0
  if F64.isFinite rate && F64.lt (0.0 : F) rate then some rate else none

variable (p : Pacer F)

def enabled : Bool := F64.lt (0.0 : F) p.rateMbps

def capacity : F :=
  match bytesPerMs p.rateMbps with
  | none => 0.0
  | some bytesPerMs =>
    let datagramBytes : F := F64.ofNat p.datagramBytes
    let packetCap := datagramBytes * F64.ofNat p.config.maxBurstDatagrams
    let timeCap := bytesPerMs * p.config.maxBurstTimeMs
    F64.min (F64.max timeCap datagramBytes) packetCap

/-- Change the usable datagram size; credit is clipped and never made. -/
def setDatagramSize (datagramBytes : ℕ) : Pacer F × Bool :=
  if datagramBytes < p.config.minDatagramBytes ∨ p.config.maxDatagramBytes < datagramBytes then
    (p, false)
  else
    let p := { p with datagramBytes }
    (if p.enabled then { p with tokensBytes := F64.min p.tokensBytes p.capacity } else p, true)

def refill (nowMs : F) : Pacer F :=
  if !F64.isFinite nowMs then p
  else if !F64.isFinite p.lastMs then { p with lastMs := nowMs }
  else if F64.le nowMs p.lastMs then p
  else if p.enabled then
    match bytesPerMs p.rateMbps with
    | none => { p with lastMs := nowMs }
    | some bytesPerMs => { p with
        tokensBytes := F64.min (p.tokensBytes + (nowMs - p.lastMs) * bytesPerMs) p.capacity
        lastMs := nowMs }
  else { p with lastMs := nowMs }

def available (nowMs : F) : F :=
  if !p.enabled || !F64.isFinite nowMs || !F64.isFinite p.lastMs then p.tokensBytes
  else if F64.le nowMs p.lastMs then p.tokensBytes
  else
    match bytesPerMs p.rateMbps with
    | none => p.tokensBytes
    | some bytesPerMs => F64.min (p.tokensBytes + (nowMs - p.lastMs) * bytesPerMs) p.capacity

/-- Change the target rate. Enabling starts with one burst, disabling discards the credit. -/
def setRate (nowMs rateMbps : F) : Pacer F :=
  let p := p.refill nowMs
  match bytesPerMs rateMbps with
  | none => { p with rateMbps := 0.0, tokensBytes := 0.0 }
  | some _ =>
    let q := { p with rateMbps }
    { q with tokensBytes := if p.enabled then F64.min q.tokensBytes q.capacity else q.capacity }

def canConsume (nowMs : F) (bytes : ℕ) : Bool :=
  if !p.enabled || bytes = 0 then true else F64.le (F64.ofNat bytes) (p.available nowMs)

def tryConsume (nowMs : F) (bytes : ℕ) : Pacer F × Bool :=
  if bytes = 0 then (p, true)
  else if !p.enabled then (p, true)
  else
    let p := p.refill nowMs
    if F64.lt p.tokensBytes (F64.ofNat bytes) then (p, false)
    else ({ p with tokensBytes := p.tokensBytes - F64.ofNat bytes }, true)

end Pacer

end OpenStream.Lowlat
