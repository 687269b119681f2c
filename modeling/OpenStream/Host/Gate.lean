import OpenStream.Lib.F64
import Mathlib.Tactic.Ring

/-!
# The delivery gate

One encode serves every guest, so which guests take a frame is decided after the frame exists. A
guest that misses one frame is to miss every frame until the next keyframe.

* **`Guest.admitFrame_latched`**
-/

namespace OpenStream.Host

variable {F : Type} [F64 F] {n : ℕ}

def KEYFRAME_INTERVAL_MS : F := 500.0

def MARK_WINDOW_MS : F := 2000.0

/-- Whether `interval` has passed between two readings, or the clock was replaced. -/
def elapsed (then_ nowMs interval : F) : Bool :=
  F64.lt nowMs then_ || F64.le interval (nowMs - then_)

def ceiling (rateMbps : F) : ℕ :=
  if F64.le (30.0 : F) rateMbps then 4000 else if F64.le (20.0 : F) rateMbps then 2500 else 1500

structure Guest where
  ceiling : ℕ
  outstanding : ℕ
  pendingKeyframe : Bool
  deriving DecidableEq

namespace Guest

def joining (rateMbps : F) : Guest := ⟨Host.ceiling rateMbps, 0, true⟩

variable (g : Guest)

def setOutstanding (fragments : ℕ) : Guest := { g with outstanding := fragments }

def markSkipping : Guest := { g with pendingKeyframe := true }

def setRate (rateMbps : F) : Guest := { g with ceiling := Host.ceiling rateMbps }

def hasRoomFor (fragments : ℕ) : Bool := min (g.outstanding + fragments) (2 ^ 32 - 1) ≤ g.ceiling

/-- What a frame does to one guest: the guest after it, whether it takes the frame, and whether it
could take the largest recent one. -/
def admitFrame (fragments mark : ℕ) (keyframe : Bool) : Guest × Bool × Bool :=
  if g.pendingKeyframe then
    if !keyframe then (g, false, g.hasRoomFor mark)
    else if !g.hasRoomFor fragments then (g, false, g.hasRoomFor mark)
    else ({ g with pendingKeyframe := false }, true, false)
  else if !g.hasRoomFor fragments then ({ g with pendingKeyframe := true }, false, false)
  else (g, true, false)

/-- **A guest that does not take a frame is latched, and only a keyframe is taken by a latched
guest.** -/
theorem admitFrame_latched (fragments mark : ℕ) (keyframe : Bool) :
    (g.admitFrame fragments mark keyframe).1.pendingKeyframe =
        !(g.admitFrame fragments mark keyframe).2.1 ∧
      ((g.admitFrame fragments mark keyframe).2.1 = true → g.pendingKeyframe = true →
        keyframe = true) := by
  unfold admitFrame
  cases hp : g.pendingKeyframe <;> cases keyframe <;> cases hr : g.hasRoomFor fragments <;>
    simp [hp]

end Guest

/-- Whether the encoder should be asked for a keyframe on the next frame. -/
inductive Keyframe
  | notNeeded
  | request
  deriving DecidableEq

/-- The delivery decision for a stream. -/
structure Gate (F : Type) where
  largest : ℕ
  previous : ℕ
  windowBeganMs : Option F
  lastRequestMs : Option F

namespace Gate

def new : Gate F := ⟨0, 0, none, none⟩

variable (gate : Gate F)

def mark : ℕ := max gate.largest gate.previous

def roll (nowMs : F) : Gate F :=
  match gate.windowBeganMs with
  | none => { gate with windowBeganMs := some nowMs }
  | some began =>
    if elapsed began nowMs MARK_WINDOW_MS then
      { gate with previous := gate.largest, largest := 0, windowBeganMs := some nowMs }
    else gate

def throttleAllows (nowMs : F) : Bool :=
  match gate.lastRequestMs with
  | none => true
  | some last => elapsed last nowMs KEYFRAME_INTERVAL_MS

/-- Ask for a refresh, subject to the throttle. -/
def requestKeyframe (nowMs : F) : Gate F × Keyframe :=
  if gate.throttleAllows nowMs then ({ gate with lastRequestMs := some nowMs }, .request)
  else (gate, .notNeeded)

def counted (fragments : ℕ) (nowMs : F) : Gate F :=
  let gate := gate.roll nowMs
  { gate with largest := max gate.largest fragments }

def admitFrame (fragments : ℕ) (keyframe : Bool) (nowMs : F) (guests : Fin n → Guest) :
    (Gate F × Keyframe) × (Fin n → Guest) × (Fin n → Bool) :=
  let gate := gate.counted fragments nowMs
  let verdict := fun i => (guests i).admitFrame fragments gate.mark keyframe
  let wanted := decide (∃ i, (verdict i).2.2 = true)
  (if wanted then gate.requestKeyframe nowMs else (gate, .notNeeded),
    fun i => (verdict i).1, fun i => (verdict i).2.1)

end Gate

end OpenStream.Host
